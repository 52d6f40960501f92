import ContractApi.Proofs.Convertible
/-!
# What is required of items

Every item of a document is checked on its own, and all that is wrong with it is reported.

- What is required of an object is a list of `Requirement`s, which goes by its kind. An item contributes the messages of
  those that it violates, in their order (`itemErrors_object`), wherever it stands (`itemErrors_eq_nil_iff`).
- The errors of a document are those of its items, one after the other (`errors_list`), so a document with more items
  has more errors behind those it had (`validate_append`).
-/

namespace ContractApi.Abi

/-! ## Requirements -/

/-- Something that is required of an object, and the message for an object at an index that does not have it. -/
structure Requirement where
  Violated : (entries : List (Key × Value)) → Prop
  message : (entries : List (Key × Value)) → (index : Nat) → Text

namespace Requirement

/-- What a message calls an object. -/
def label (entries : List (Key × Value)) (index : Nat) : Text :=
  let name := Value.field "name" entries
  if name.isTruthy then name.display else Text.ofNat index

/-- It says of which type it is. -/
def type : Requirement where
  Violated entries := (Value.field "type" entries).isTruthy = false
  message _ index := "ABI item at index " ++ Text.ofNat index ++ " is missing 'type' property"

/-- Its type is known. -/
def knownType : Requirement where
  Violated entries := ItemKind.of (.object entries) = .unknown
  message entries index :=
    "ABI item at index " ++ Text.ofNat index ++ " has unknown type: " ++ (Value.field "type" entries).display

/-- It has a name. -/
def name (word : Text) : Requirement where
  Violated entries := (Value.field "name" entries).isTruthy = false
  message _ index := word ++ " at index " ++ Text.ofNat index ++ " is missing 'name' property"

/-- The parameter list of that name is valid or missing. -/
def parameters (word list : Text) : Requirement where
  Violated entries := validParameters (Value.field list entries) = false
  message entries index := word ++ " '" ++ label entries index ++ "' has invalid '" ++ list ++ "' property"

/-- The inputs are valid or missing; the message names no object. -/
def inputs (word : Text) : Requirement where
  Violated entries := validParameters (Value.field "inputs" entries) = false
  message _ index := "ABI " ++ word ++ " at index " ++ Text.ofNat index ++ " has invalid 'inputs' property"

/-- If it says how it may affect the state, then by one of the four words. -/
def mutability : Requirement where
  Violated entries := (Value.field "stateMutability" entries).isTruthy = true ∧
    ∀ m : Mutability, Value.field "stateMutability" entries ≠ .text m.word
  message entries index := "Function '" ++ label entries index ++ "' has invalid 'stateMutability': " ++
    (Value.field "stateMutability" entries).display

/-- If it says whether it is anonymous, then by a truth value. -/
def anonymous : Requirement where
  Violated entries := ∃ v, Value.lookup? "anonymous" entries = some v ∧ ∀ b, v ≠ .bool b
  message entries index := "Event '" ++ label entries index ++ "' has invalid 'anonymous' property: should be a boolean"

/-- What is required of objects of a kind. -/
def ofKind : ItemKind → List Requirement
  | .function => [name "Function", parameters "Function" "inputs", parameters "Function" "outputs", mutability]
  | .event => [name "Event", parameters "Event" "inputs", anonymous]
  | .constructor => [inputs "constructor"]
  | .error => [inputs "error"]
  | .fallback | .receive => []
  | .unknown => [knownType]

end Requirement

open Classical in
/-- The messages for the requirements that an object violates, in their order. -/
noncomputable def violations (requirements : List Requirement) (entries : List (Key × Value)) (index : Nat) : List Text :=
  (requirements.filter (·.Violated entries)).map fun r => r.message entries index

/-- What is required of an object: a type, or else what its kind requires. -/
def requirementsOf (entries : List (Key × Value)) : List Requirement :=
  if (Value.field "type" entries).isTruthy then Requirement.ofKind (ItemKind.of (.object entries)) else [.type]

/-! ## Items -/

/-- The messages for an item at an index. -/
def itemErrors (item : Value) (index : Nat) : List Text := (itemProblems item index).map Problem.message

section Violations

variable (entries : List (Key × Value)) (index : Nat)

theorem violations_append (rs rs' : List Requirement) :
    violations (rs ++ rs') entries index = violations rs entries index ++ violations rs' entries index := by
  rw [violations, List.filter_append, List.map_append]
  rfl

/-- Whether there is a message does not depend on the index. -/
theorem violations_eq_nil_iff (rs : List Requirement) :
    violations rs entries index = [] ↔ ∀ r ∈ rs, ¬r.Violated entries := by
  rw [violations, List.map_eq_nil_iff, List.filter_eq_nil_iff]
  simp only [decide_eq_true_iff]

variable {entries index}

theorem violations_of_violated {r : Requirement} (h : r.Violated entries) :
    violations [r] entries index = [r.message entries index] := by
  simp [violations, h]

theorem messages_problemIf {condition : Bool} {problem : Problem} {r : Requirement}
    (hc : condition = true ↔ r.Violated entries) (hm : problem.message = r.message entries index) :
    (problemIf condition problem).map Problem.message = violations [r] entries index := by
  by_cases h : r.Violated entries
  · rw [problemIf, if_pos (hc.2 h), List.map_singleton, hm, violations_of_violated h]
  · rw [problemIf, if_neg (fun hcondition => h (hc.1 hcondition))]
    simp [violations, h]

end Violations

theorem label_text (entries : List (Key × Value)) (index : Nat) :
    (ItemLabel.of entries index).text = Requirement.label entries index := by
  unfold ItemLabel.of Requirement.label
  dsimp only
  split <;> rfl

theorem isNone_ofValue?_iff (v : Value) :
    (Mutability.ofValue? v).isNone = true ↔ ∀ m : Mutability, v ≠ .text m.word := by
  cases v with
  | text word =>
    rw [Mutability.ofValue?, Option.isNone_iff_eq_none, List.find?_eq_none]
    constructor
    · rintro h m ⟨⟩
      exact h m (by cases m <;> decide) (decide_eq_true rfl)
    · rintro h m - hm
      exact h m (congrArg Value.text (of_decide_eq_true hm).symm)
  | _ => exact iff_of_true rfl fun m h => by cases h

theorem not_anonymousValid_iff (entries : List (Key × Value)) :
    (!anonymousValid entries) = true ↔ ∃ v, Value.lookup? "anonymous" entries = some v ∧ ∀ b, v ≠ .bool b := by
  rw [anonymousValid]
  cases Value.lookup? "anonymous" entries with
  | none => simp
  | some v => cases v <;> simp

section Object

variable {entries : List (Key × Value)} {index : Nat}

theorem messages_append {ps ps' : List Problem} {rs rs' : List Requirement}
    (h : ps.map Problem.message = violations rs entries index)
    (h' : ps'.map Problem.message = violations rs' entries index) :
    (ps ++ ps').map Problem.message = violations (rs ++ rs') entries index := by
  rw [List.map_append, h, h', violations_append]

theorem violated_name (word : Text) :
    (!(Value.field "name" entries).isTruthy) = true ↔ (Requirement.name word).Violated entries := by
  rw [Bool.not_eq_true']
  rfl

theorem violated_parameters (list : Text) :
    (!parametersValidAt list entries) = true ↔ validParameters (Value.field list entries) = false := by
  rw [Bool.not_eq_true']
  rfl

theorem violated_mutability : ((Value.field "stateMutability" entries).isTruthy &&
    (Mutability.ofValue? (Value.field "stateMutability" entries)).isNone) = true ↔
      Requirement.mutability.Violated entries := by
  rw [Bool.and_eq_true, isNone_ofValue?_iff]
  rfl

theorem violated_anonymous : (!anonymousValid entries) = true ↔ Requirement.anonymous.Violated entries :=
  not_anonymousValid_iff entries

/-- The problems of a function are violations of what functions have to be. -/
theorem messages_functionProblems : (functionProblems entries index).map Problem.message =
    violations (Requirement.ofKind .function) entries index := by
  have hlabel := label_text entries index
  have hrequired : Requirement.ofKind .function = [.name "Function"] ++ [.parameters "Function" "inputs"] ++
      [.parameters "Function" "outputs"] ++ [.mutability] := rfl
  rw [functionProblems, hrequired]
  refine messages_append (messages_append (messages_append ?_ ?_) ?_) ?_
  · exact messages_problemIf (violated_name "Function") rfl
  · refine messages_problemIf (violated_parameters "inputs") ?_
    simp only [Problem.message, hlabel, Requirement.parameters, List.append_assoc]
    rfl
  · refine messages_problemIf (violated_parameters "outputs") ?_
    simp only [Problem.message, hlabel, Requirement.parameters, List.append_assoc]
    rfl
  · exact messages_problemIf violated_mutability (by rw [Problem.message, hlabel]; rfl)

/-- The problems of an event are violations of what events have to be. -/
theorem messages_eventProblems : (eventProblems entries index).map Problem.message =
    violations (Requirement.ofKind .event) entries index := by
  have hlabel := label_text entries index
  have hrequired : Requirement.ofKind .event = [.name "Event"] ++ [.parameters "Event" "inputs"] ++ [.anonymous] := rfl
  rw [eventProblems, hrequired]
  refine messages_append (messages_append ?_ ?_) ?_
  · exact messages_problemIf (violated_name "Event") rfl
  · refine messages_problemIf (violated_parameters "inputs") ?_
    simp only [Problem.message, hlabel, Requirement.parameters, List.append_assoc]
    rfl
  · exact messages_problemIf violated_anonymous (by rw [Problem.message, hlabel]; rfl)

/-- An object contributes the messages for the requirements that it violates, in their order. -/
theorem itemErrors_object : itemErrors (.object entries) index = violations (requirementsOf entries) entries index := by
  rw [itemErrors, itemProblems, requirementsOf]
  split
  · cases hk : ItemKind.of (.object entries) with
    | function => exact messages_functionProblems
    | event => exact messages_eventProblems
    | constructor => exact messages_problemIf (r := .inputs "constructor") (violated_parameters "inputs") rfl
    | error => exact messages_problemIf (r := .inputs "error") (violated_parameters "inputs") rfl
    | fallback | receive => rfl
    | unknown => exact (violations_of_violated (r := .knownType) hk).symm
  · rename_i ht
    exact (violations_of_violated (r := .type) (Bool.eq_false_iff.2 ht)).symm

end Object

/-- Whether an item contributes anything does not depend on where it stands: nothing, if it is an object that has all that
is required of it. -/
theorem itemErrors_eq_nil_iff (item : Value) (index : Nat) : itemErrors item index = [] ↔
    ∃ entries, item = .object entries ∧ ∀ r ∈ requirementsOf entries, ¬r.Violated entries := by
  cases item with
  | object entries =>
    rw [itemErrors_object, violations_eq_nil_iff]
    constructor
    · exact fun h => ⟨entries, rfl, h⟩
    · rintro ⟨_, ⟨⟩, h⟩
      exact h
  | _ =>
    refine iff_of_false (fun h => by cases h) ?_
    rintro ⟨_, h, _⟩
    cases h

/-! ## Documents -/

/-- The messages for items that stand one after the other from an index on. -/
def errorsFrom (index : Nat) (items : List Value) : List Text :=
  (items.zipIdx index).flatMap fun e => itemErrors e.1 e.2

theorem errorsFrom_append (index : Nat) (xs ys : List Value) :
    errorsFrom index (xs ++ ys) = errorsFrom index xs ++ errorsFrom (index + xs.length) ys := by
  rw [errorsFrom, List.zipIdx_append, List.flatMap_append]
  rfl

theorem errorsFrom_eq_nil_iff (index : Nat) (items : List Value) :
    errorsFrom index items = [] ↔ ∀ item ∈ items, ∀ i, itemErrors item i = [] := by
  rw [errorsFrom, List.flatMap_eq_nil_iff]
  simp only [itemErrors_eq_nil_iff]
  constructor
  · intro h item hitem i
    obtain ⟨n, hn⟩ := List.mem_iff_getElem?.1 hitem
    exact h (item, index + n) (List.mk_add_mem_zipIdx_iff_getElem?.2 hn)
  · exact fun h e he => h e.1 (List.fst_mem_of_mem_zipIdx he) 0

/-- The errors of a list of items are those of the items, one after the other. -/
theorem errors_list {items : List Value} (h : items ≠ []) : (validate (.list items)).errors = errorsFrom 0 items := by
  obtain ⟨item, rest, rfl⟩ := List.exists_cons_of_ne_nil h
  exact List.map_flatMap

/-- A list is valid exactly if there are items in it and none of them contributes an error. -/
theorem isValid_list (items : List Value) : (validate (.list items)).isValid = true ↔
    items ≠ [] ∧ ∀ item ∈ items, ∀ i, itemErrors item i = [] := by
  by_cases h : items = []
  · subst h
    exact iff_of_false (fun h => by cases h) fun h => h.1 rfl
  · rw [Validation.isValid, List.isEmpty_iff, errors_list h, errorsFrom_eq_nil_iff]
    exact (and_iff_right h).symm

/-- An object that holds a list of items is checked like the list. -/
theorem validate_object {entries : List (Key × Value)} {items : List Value}
    (h : Value.lookup? "abi" entries = some (.list items)) : validate (.object entries) = validate (.list items) := by
  have hfield : Value.field "abi" entries = .list items := by rw [Value.field, h, Option.getD_some]
  rw [validate, itemList?, hfield]
  rfl

/-- Every item is checked on its own and reports all that is wrong with it, whatever else stands in the document. -/
theorem validate_append {xs : List Value} (h : xs ≠ []) (ys : List Value) :
    (validate (.list (xs ++ ys))).errors = (validate (.list xs)).errors ++ errorsFrom xs.length ys ∧
    (validate (.list xs)).errors = errorsFrom 0 xs ∧
    (∀ item index, itemErrors item index = [] ↔ (validate (.list [item])).isValid = true) ∧
    (∀ entries index, ItemKind.of (.object entries) = .function → itemErrors (.object entries) index =
      violations [.name "Function", .parameters "Function" "inputs", .parameters "Function" "outputs", .mutability]
        entries index) ∧
    (∀ entries index, ItemKind.of (.object entries) = .event → itemErrors (.object entries) index =
      violations [.name "Event", .parameters "Event" "inputs", .anonymous] entries index) ∧
    (∀ items, (validate (.list items)).isValid = true ↔
      items ≠ [] ∧ ∀ e ∈ items.zipIdx, itemErrors e.1 e.2 = []) ∧
    ∀ entries items, Value.lookup? "abi" entries = some (.list items) →
      validate (.object entries) = validate (.list items) := by
  have hrequired : ∀ {entries kind}, ItemKind.of (.object entries) = kind → kind ≠ .unknown →
      requirementsOf entries = Requirement.ofKind kind := by
    rintro entries kind rfl hk
    rw [requirementsOf, if_pos (isTruthy_type hk)]
  refine ⟨?_, errors_list h, fun item index => ?_, fun entries index hk => ?_, fun entries index hk => ?_,
    fun items => ?_, fun entries items => validate_object⟩
  · rw [errors_list h, errors_list (List.append_ne_nil_of_left_ne_nil h ys), errorsFrom_append, Nat.zero_add]
  · rw [isValid_list, List.forall_mem_singleton, and_iff_right (List.cons_ne_nil item [])]
    simp only [itemErrors_eq_nil_iff, forall_const]
  · rw [itemErrors_object, hrequired hk (by decide)]
    rfl
  · rw [itemErrors_object, hrequired hk (by decide)]
    rfl
  · rw [isValid_list, ← errorsFrom_eq_nil_iff 0, errorsFrom, List.flatMap_eq_nil_iff]

/-- A function without a name and with a wrong list behind an item that is no object. -/
theorem validate_append_broken : [Value.null] ≠ [] ∧ (validate (.list ([.null] ++ [.object [("type", "function"),
    ("inputs", "none"), ("stateMutability", "maybe")]]))).errors =
      ["ABI item at index 0 must be an object", "Function at index 1 is missing 'name' property",
        "Function '1' has invalid 'inputs' property", "Function '1' has invalid 'stateMutability': maybe"] :=
  ⟨List.cons_ne_nil _ _, (validate_append (List.cons_ne_nil _ _) _).1.trans (by decide +kernel)⟩

end ContractApi.Abi
