import ContractApi.Proofs.Results
/-!
# What a conversion keeps

A conversion keeps its validation, its interface and its description, while its document, its name and its strictness
may be changed at any time. Each of the three is a snapshot of the moment it comes from.

- One action fills a place that is empty with what it needs and has computed, and leaves one that is filled as it is
  (`perform_state`). By induction, after any number of actions a place holds what the first moment that filled it gave
  (`after_of_perform`).
- A description is that of the interface which is kept, with the strictness of the moment at which it was assembled
  (`parsed_of_described`).
- An action that fails fills no place with its own result (`failing_perform`).
- What is kept is `WellMade`, so that a run answers from it (`runAnswers`). As long as the inputs stay as they are it
  `Agrees` with them, so that no action answers differently from the way it would have answered at first
  (`Agrees.result_perform`).
-/

namespace ContractApi

open Abi OpenApi

namespace Conversion

/-! ## Actions -/

/-- What can be done with a conversion: its steps, assignments to its inputs, and additions to its document. -/
inductive Action where
  | getValidation
  | getParsed
  | getDocument
  | getContractName
  | getSelectors
  | getEventDefinitions
  | run
  | setRaw (raw : Value)
  | setContractName (contractName : Value)
  | setStrict (strict : Value)
  | append (item : Value)

/-- What an action answers. -/
inductive Answer where
  | validation (validation : Validation)
  | parsed (parsed : Slot Interface)
  | document (document : Value)
  | contractName (name : Value)
  | selectors (selectors : Selectors)
  | eventDefinitions (prototypes : List Text)
  | result (result : ConversionResult)
  | nothing

/-- A step that says what kind of answer it gives. -/
def answering {α : Type} (f : α → Answer) (step : Step α) : Step Answer := fun c => (f <$> (step c).1, (step c).2)

/-- Does what the action says. -/
def Action.perform : Action → Step Answer
  | .getValidation => answering .validation Conversion.getValidation
  | .getParsed => answering .parsed Conversion.getParsed
  | .getDocument => answering .document Conversion.getDocument
  | .getContractName => answering .contractName Conversion.getContractName
  | .getSelectors => answering .selectors fun c => (c.selectors, c)
  | .getEventDefinitions => answering .eventDefinitions fun c => (c.eventDefinitions, c)
  | .run => answering .result Conversion.run
  | .setRaw raw => fun c => (return .nothing, { c with raw })
  | .setContractName contractName => fun c => (return .nothing, { c with contractName })
  | .setStrict strict => fun c => (return .nothing, { c with strict })
  | .append item => answering (fun _ => .nothing) (Conversion.append item)

/-- What a conversion is made from. -/
structure Inputs where
  raw : Value
  contractName : Value
  strict : Value

@[simp] def inputs (c : Conversion) : Inputs where
  raw := c.raw
  contractName := c.contractName
  strict := c.strict

/-- What an action makes of the inputs. -/
@[simp] def Action.change : Action → Inputs → Inputs
  | .setRaw raw, i => { i with raw }
  | .setContractName contractName, i => { i with contractName }
  | .setStrict strict, i => { i with strict }
  | .append item, i => { i with raw := (appended? item i.raw).getD i.raw }
  | _, i => i

/-- Whether an action is one of the steps of a conversion, which leave the inputs alone. -/
def Action.isStep : Action → Bool
  | .setRaw _ | .setContractName _ | .setStrict _ | .append _ => false
  | _ => true

/-- The conversion after some actions. -/
def after (start : Conversion) (actions : List Action) : Conversion :=
  actions.foldl (fun c a => (a.perform c).2) start

/-- An action and the conversion that it meets. -/
structure Moment where
  before : Conversion
  action : Action

namespace Moment

variable (m : Moment)

def answer : Outcome Answer := (m.action.perform m.before).1

def after : Conversion := (m.action.perform m.before).2

end Moment

/-- The moments of a sequence of actions. -/
def moments : Conversion → List Action → List Moment
  | _, [] => []
  | c, a :: rest => ⟨c, a⟩ :: moments (a.perform c).2 rest

/-! ## What the steps do -/

/-- The interface as it is kept or as it is read now, unless this fails. -/
def currentParsed? (c : Conversion) : Option (Slot Interface) :=
  c.parsed.or ((readInterface c.raw c.contractName).value?.map .record)

/-- The description of the current interface, unless there is none. -/
def assembled? (c : Conversion) : Option Value :=
  c.currentParsed?.bind fun p => (assemble p c.strict).value?.map Document.toValue

theorem getParsed_value (c : Conversion) : c.getParsed.1.value? = c.currentParsed? := by
  unfold getParsed currentParsed?
  cases hp : c.parsed with
  | some p => rfl
  | none => exact Outcome.value?_map

theorem getParsed_state (c : Conversion) : c.getParsed.2 = { c with parsed := c.currentParsed? } := by
  have hv := getParsed_value c
  unfold getParsed at hv ⊢
  cases hp : c.parsed with
  | some p =>
    simp only [currentParsed?, hp, Option.some_or]
    rw [← hp]
  | none =>
    rw [← hv, hp]
    rfl

/-- Without a description, the current interface is described. -/
theorem getDocument_of_none {c : Conversion} (hd : c.document = none) :
    let outcome := c.getParsed.1 >>= fun p => Document.toValue <$> assemble p c.strict
    c.getDocument = (outcome, { c with parsed := c.currentParsed?, document := outcome.value? }) := by
  simp only [getDocument, hd, getParsed_state, map_eq_pure_bind]
  rfl

theorem getDocument_of_some {c : Conversion} {d : Value} (hd : c.document = some d) :
    c.getDocument = (return d, c) := by
  simp only [getDocument, hd]

theorem getDocument_value (c : Conversion) : c.getDocument.1.value? = c.document.or c.assembled? := by
  cases hd : c.document with
  | some d =>
    rw [getDocument_of_some hd]
    rfl
  | none =>
    simp only [getDocument_of_none hd, Outcome.value?_bind, Outcome.value?_map, getParsed_value, Option.none_or,
      assembled?]

theorem getDocument_state (c : Conversion) : c.getDocument.2 =
    { c with
      parsed := if c.document.isSome then c.parsed else c.currentParsed?
      document := c.document.or c.assembled? } := by
  cases hd : c.document with
  | some d =>
    rw [getDocument_of_some hd]
    obtain ⟨raw, contractName, strict, validation, parsed, document⟩ := c
    cases hd
    rfl
  | none =>
    simp only [getDocument_of_none hd, Outcome.value?_bind, Outcome.value?_map, getParsed_value, Option.none_or,
      assembled?, Option.isSome_none, Bool.false_eq_true, if_false]

/-- The conversion with its validation kept. -/
def validated (c : Conversion) : Conversion := { c with validation := some c.currentValidation }

theorem run_state_of_empty {c : Conversion} (he : isEmptyBody c.raw = true) : c.run.2 = c := by
  simp [run, he]

theorem run_state_of_invalid {c : Conversion} (he : isEmptyBody c.raw = false)
    (hv : c.currentValidation.isValid = false) : c.run.2 = c.validated := by
  simp [run, he, hv]
  rfl

theorem run_state_of_valid {c : Conversion} (he : isEmptyBody c.raw = false)
    (hv : c.currentValidation.isValid = true) : c.run.2 = c.validated.getDocument.2 := by
  simp [run, he, hv]
  rfl

theorem validated_eq (c : Conversion) :
    c.validated = { c with validation := c.validation.or (some (validate c.raw)) } := by
  unfold validated currentValidation
  cases c.validation <;> rfl

theorem append_state (item : Value) (c : Conversion) :
    (append item c).2 = { c with raw := (appended? item c.raw).getD c.raw } := by
  unfold append
  cases appended? item c.raw <;> rfl

/-! ## One action -/

namespace Moment

variable (m : Moment)

/-- Whether the action needs the document to be validated. -/
@[simp] def validates : Bool :=
  match m.action with
  | .getValidation => true
  | .run => !isEmptyBody m.before.raw
  | _ => false

/-- Whether the action needs the interface to be described. -/
@[simp] def describes : Bool :=
  match m.action with
  | .getDocument => true
  | .run => !isEmptyBody m.before.raw && m.before.currentValidation.isValid
  | _ => false

/-- Whether the action needs the document to be read. -/
@[simp] def reads : Bool :=
  match m.action with
  | .getParsed | .getContractName => true
  | _ => m.describes && m.before.document.isNone

/-- The validation of the document at this moment, if the action needs it. -/
def validated? : Option Validation := if m.validates then some (validate m.before.raw) else none

/-- The interface in the document at this moment, if the action needs it and it can be read. -/
def read? : Option (Slot Interface) :=
  if m.reads then (readInterface m.before.raw m.before.contractName).value?.map .record else none

/-- The description of the current interface at this moment, if the action needs it and it can be assembled. -/
def described? : Option Value := if m.describes then m.before.assembled? else none

end Moment

/-- An action changes the inputs as it says, and fills the places that are empty with what it needs and has computed. -/
theorem perform_state (c : Conversion) (a : Action) : (a.perform c).2 =
    { raw := (a.change c.inputs).raw
      contractName := (a.change c.inputs).contractName
      strict := (a.change c.inputs).strict
      validation := c.validation.or (Moment.validated? ⟨c, a⟩)
      parsed := c.parsed.or (Moment.read? ⟨c, a⟩)
      document := c.document.or (Moment.described? ⟨c, a⟩) } := by
  cases a with
  | getValidation =>
    show c.validated = _
    simp [validated_eq, Moment.validated?, Moment.read?, Moment.described?]
  | getParsed =>
    show c.getParsed.2 = _
    simp [getParsed_state, currentParsed?, Moment.validated?, Moment.read?, Moment.described?]
  | getContractName =>
    show c.getParsed.2 = _
    simp [getParsed_state, currentParsed?, Moment.validated?, Moment.read?, Moment.described?]
  | getDocument =>
    show c.getDocument.2 = _
    cases hd : c.document <;>
      simp [getDocument_state, currentParsed?, hd, Moment.validated?, Moment.read?, Moment.described?]
  | run =>
    show c.run.2 = _
    cases he : isEmptyBody c.raw with
    | true => simp [run_state_of_empty he, he, Moment.validated?, Moment.read?, Moment.described?]
    | false =>
      -- the description is needed only if the validation, kept or new, finds nothing
      cases hv : c.currentValidation.isValid with
      | false =>
        simp [run_state_of_invalid he hv, validated_eq, he, hv, Moment.validated?, Moment.read?, Moment.described?]
      | true =>
        cases hd : c.document <;>
          simp [run_state_of_valid he hv, getDocument_state, validated_eq, currentParsed?, assembled?, hd, he, hv,
            Moment.validated?, Moment.read?, Moment.described?]
  | append item =>
    show (append item c).2 = _
    simp [append_state, Moment.validated?, Moment.read?, Moment.described?]
  | _ =>
    simp [Action.perform, answering, Moment.validated?, Moment.read?, Moment.described?]

/-! ## Sequences of actions -/

theorem after_cons (c : Conversion) (a : Action) (rest : List Action) :
    after c (a :: rest) = after (a.perform c).2 rest := rfl

theorem after_append (c : Conversion) (actions more : List Action) :
    after c (actions ++ more) = after (after c actions) more :=
  List.foldl_append

theorem inputs_after (c : Conversion) (actions : List Action) :
    (after c actions).inputs = actions.foldl (fun i a => a.change i) c.inputs := by
  induction actions generalizing c with
  | nil => rfl
  | cons a rest ih =>
    rw [after_cons, ih, perform_state, List.foldl_cons]
    rfl

/-- A place that every action leaves as it is, or fills if it is empty, holds what the first moment that fills it
gives. -/
theorem after_of_perform {α : Type} {place : Conversion → Option α} {fill? : Moment → Option α}
    (h : ∀ c (a : Action), place (a.perform c).2 = (place c).or (fill? ⟨c, a⟩)) (c : Conversion)
    (actions : List Action) : place (after c actions) = (place c).or ((moments c actions).findSome? fill?) := by
  -- the first action fills the place, or the conversion after it does
  induction actions generalizing c with
  | nil => simp [after, moments]
  | cons a rest ih =>
    rw [after_cons, ih, h, Option.or_assoc, moments, List.findSome?_cons]
    cases fill? ⟨c, a⟩ <;> rfl

theorem validation_after (c : Conversion) (actions : List Action) :
    (after c actions).validation = c.validation.or ((moments c actions).findSome? Moment.validated?) :=
  after_of_perform (fun c a => by rw [perform_state]) c actions

theorem parsed_after (c : Conversion) (actions : List Action) :
    (after c actions).parsed = c.parsed.or ((moments c actions).findSome? Moment.read?) :=
  after_of_perform (fun c a => by rw [perform_state]) c actions

theorem document_after (c : Conversion) (actions : List Action) :
    (after c actions).document = c.document.or ((moments c actions).findSome? Moment.described?) :=
  after_of_perform (fun c a => by rw [perform_state]) c actions

/-- Whether every place that is filled in the first conversion holds the same in the second. -/
structure Keeps (c c' : Conversion) : Prop where
  validation : ∀ v, c.validation = some v → c'.validation = some v
  parsed : ∀ p, c.parsed = some p → c'.parsed = some p
  document : ∀ d, c.document = some d → c'.document = some d

theorem keeps_after (c : Conversion) (actions : List Action) : c.Keeps (after c actions) where
  validation := fun v h => by rw [validation_after, h, Option.some_or]
  parsed := fun p h => by rw [parsed_after, h, Option.some_or]
  document := fun d h => by rw [document_after, h, Option.some_or]

/-- A moment lies after the actions before it. -/
theorem exists_of_moments_eq {earlier later : List Moment} {m : Moment} : ∀ {c : Conversion} {actions : List Action},
    moments c actions = earlier ++ m :: later →
      ∃ done rest, actions = done ++ m.action :: rest ∧ earlier = moments c done ∧ m.before = after c done := by
  induction earlier with
  | nil =>
    intro c actions h
    cases actions with
    | nil => cases h
    | cons a rest =>
      cases h
      exact ⟨[], rest, rfl, rfl, rfl⟩
  | cons e earlier ih =>
    intro c actions h
    cases actions with
    | nil => cases h
    | cons a rest =>
      obtain ⟨he, htail⟩ := List.cons_eq_cons.1 h
      obtain ⟨done, rest', rfl, rfl, hb⟩ := ih htail
      cases he
      exact ⟨a :: done, rest', rfl, rfl, hb⟩

/-- What holds at first and is kept by each of the actions holds at every moment. -/
theorem forall_moments {P : Conversion → Prop} {actions : List Action}
    (hstep : ∀ c, ∀ a ∈ actions, P c → P (a.perform c).2) {c : Conversion} (hc : P c) :
    ∀ m ∈ moments c actions, P m.before := by
  induction actions generalizing c with
  | nil => exact fun m hm => absurd hm List.not_mem_nil
  | cons a rest ih =>
    have hrest := ih (fun c b hb => hstep c b (List.mem_cons_of_mem a hb)) (hstep c a List.mem_cons_self hc)
    intro m hm
    rcases List.mem_cons.1 hm with rfl | hm
    · exact hc
    · exact hrest m hm

/-- An action that describes the interface reads the document first. -/
theorem reads_of_describes {m : Moment} (h : m.describes = true) (hd : m.before.document = none) : m.reads = true := by
  obtain ⟨c, a⟩ := m
  cases a <;> simp_all

theorem assembled?_eq_some {c : Conversion} {d : Value} (h : c.assembled? = some d) :
    ∃ p D, c.currentParsed? = some p ∧ (assemble p c.strict).result = .ok D ∧ d = D.toValue := by
  obtain ⟨p, hp, h⟩ := Option.bind_eq_some_iff.1 h
  obtain ⟨D, hD, rfl⟩ := Option.map_eq_some_iff.1 h
  exact ⟨p, D, hp, Outcome.value?_eq_some.1 hD, rfl⟩

theorem described?_eq_some {m : Moment} {d : Value} (h : m.described? = some d) :
    m.describes = true ∧ ∃ p D, m.before.currentParsed? = some p ∧ (assemble p m.before.strict).result = .ok D ∧
      d = D.toValue := by
  unfold Moment.described? at h
  split at h
  case isTrue hdescribes => exact ⟨hdescribes, assembled?_eq_some h⟩
  case isFalse => cases h

/-- The first moment with a description leaves the interface that is described. -/
theorem parsed_after_describing {m : Moment} (hm : m.describes = true) (hd : m.before.document = none) :
    m.after.parsed = m.before.currentParsed? := by
  unfold Moment.after
  rw [perform_state]
  simp only [Moment.read?, reads_of_describes hm hd, if_true, currentParsed?]

/-- What is kept as the description describes the interface that is kept, with the strictness of the first moment at
which it could be assembled. -/
theorem parsed_of_described {start : Conversion} {actions : List Action} {d : Value} (hstart : start.document = none)
    (h : (after start actions).document = some d) : ∃ earlier m later,
      moments start actions = earlier ++ m :: later ∧ (∀ m' ∈ earlier, m'.described? = none) ∧ m.describes = true ∧
        ∃ p D, (after start actions).parsed = some p ∧ (assemble p m.before.strict).result = .ok D ∧ d = D.toValue := by
  rw [document_after, hstart, Option.none_or] at h
  obtain ⟨earlier, m, later, hsplit, hm, hearlier⟩ := List.findSome?_eq_some_iff.1 h
  obtain ⟨hdescribes, p, D, hp, hD, hd⟩ := described?_eq_some hm
  obtain ⟨done, rest, rfl, rfl, hb⟩ := exists_of_moments_eq hsplit
  have hnone : m.before.document = none := by
    rw [hb, document_after, hstart, Option.none_or]
    exact List.findSome?_eq_none_iff.2 hearlier
  have hafter : (after start (done ++ m.action :: rest)).parsed = some p := by
    rw [after_append, after_cons, ← hb]
    exact (keeps_after _ rest).parsed p ((parsed_after_describing hdescribes hnone).trans hp)
  exact ⟨_, m, later, hsplit, hearlier, hdescribes, p, D, hafter, hD, hd⟩

/-! ## Runs -/

/-- Whether what is kept was read and assembled by the conversion itself. -/
structure WellMade (c : Conversion) : Prop where
  parsed : ∀ p, c.parsed = some p → ∃ i, p = .record i
  document : ∀ d, c.document = some d → ∃ D : Document, d = D.toValue

theorem WellMade.currentParsed {c : Conversion} (hc : c.WellMade) {p : Slot Interface} (h : c.currentParsed? = some p) :
    ∃ i, p = .record i := by
  rcases Option.or_eq_some_iff.1 h with hp | ⟨_, hp⟩
  · exact hc.parsed p hp
  · obtain ⟨i, _, rfl⟩ := Option.map_eq_some_iff.1 hp
    exact ⟨i, rfl⟩

theorem WellMade.described {c : Conversion} (hc : c.WellMade) {d : Value} (h : c.getDocument.1.value? = some d) :
    ∃ D : Document, d = D.toValue := by
  rw [getDocument_value] at h
  rcases Option.or_eq_some_iff.1 h with hd | ⟨_, hd⟩
  · exact hc.document d hd
  · obtain ⟨_, D, _, _, rfl⟩ := assembled?_eq_some hd
    exact ⟨D, rfl⟩

theorem WellMade.perform {c : Conversion} (hc : c.WellMade) (a : Action) : (a.perform c).2.WellMade := by
  rw [perform_state]
  constructor
  · intro p hp
    rcases Option.or_eq_some_iff.1 hp with hp | ⟨_, hp⟩
    · exact hc.parsed p hp
    · simp only [Moment.read?, Option.ite_none_right_eq_some, Option.map_eq_some_iff] at hp
      obtain ⟨_, i, _, rfl⟩ := hp
      exact ⟨i, rfl⟩
  · intro d hd
    rcases Option.or_eq_some_iff.1 hd with hd | ⟨_, hd⟩
    · exact hc.document d hd
    · obtain ⟨_, _, D, _, _, rfl⟩ := described?_eq_some hd
      exact ⟨D, rfl⟩

theorem getParsed_eq_error {c : Conversion} {failure : Failure} (h : c.getParsed.1.result = .error failure) :
    (readInterface c.raw c.contractName).result = .error failure := by
  unfold getParsed at h
  split at h
  · cases h
  · exact Outcome.map_eq_error.1 h

/-- What cannot be described failed to be read or to be assembled. -/
theorem WellMade.stage_getDocument {c : Conversion} (hc : c.WellMade) {failure : Failure}
    (h : c.getDocument.1.result = .error failure) : failure.stage ≠ .operation := by
  cases hd : c.document with
  | some d =>
    rw [getDocument_of_some hd] at h
    cases h
  | none =>
    rw [getDocument_of_none hd] at h
    rcases Outcome.bind_eq_error.1 h with hread | ⟨p, hp, hassemble⟩
    · simp [stage_readInterface (getParsed_eq_error hread)]
    · obtain ⟨i, rfl⟩ := hc.currentParsed ((getParsed_value c).symm.trans (Outcome.value?_eq_some.2 hp))
      simp [stage_assemble (Outcome.map_eq_error.1 hassemble)]

/-- Keeping the validation does not change what the description of the interface is. -/
theorem getDocument_validated (c : Conversion) : c.validated.getDocument.1 = c.getDocument.1 := by
  have hparsed : c.validated.getParsed.1 = c.getParsed.1 := by
    cases hp : c.parsed <;> simp [getParsed, validated, hp]
  cases hd : c.document with
  | some d => rw [getDocument_of_some hd, getDocument_of_some (c := c.validated) hd]
  | none =>
    rw [getDocument_of_none hd, getDocument_of_none (c := c.validated) hd, hparsed]
    rfl

theorem run_result_of_empty {c : Conversion} (he : isEmptyBody c.raw = true) :
    c.run.1.result = .ok (.invalid emptyBody [emptyBody]) := by
  simp [run, he]

theorem run_result_of_invalid {c : Conversion} (he : isEmptyBody c.raw = false)
    (hv : c.currentValidation.isValid = false) :
    c.run.1.result = .ok (.invalid "Invalid ABI JSON structure" c.currentValidation.errors) := by
  simp [run, he, hv, getValidation, Outcome.andThen]

theorem run_result_of_valid {c : Conversion} (he : isEmptyBody c.raw = false)
    (hv : c.currentValidation.isValid = true) : c.run.1.result = (resultOf c.getDocument.1).result := by
  rw [← getDocument_validated]
  simp [run, he, hv, getValidation, Outcome.andThen, validated]

/-- A run of a valid document whose interface is described is a success. -/
theorem WellMade.run_described {c : Conversion} (hc : c.WellMade) {d : Value} (he : isEmptyBody c.raw = false)
    (hv : c.currentValidation.isValid = true) (hd : c.getDocument.1.value? = some d) :
    c.run.1.result = .ok (.success d) := by
  obtain ⟨D, rfl⟩ := hc.described hd
  rw [run_result_of_valid he hv, resultOf_of_described (Outcome.value?_eq_some.1 hd)]

/-- What a run from one conversion to another answers. -/
inductive RunAnswers (c c' : Conversion) : ConversionResult → Prop
  | empty (he : isEmptyBody c.raw = true) : RunAnswers c c' (.invalid emptyBody [emptyBody])
  | invalid {v : Validation} (he : isEmptyBody c.raw = false) (hv : c'.validation = some v)
    (hinvalid : v.isValid = false) : RunAnswers c c' (.invalid "Invalid ABI JSON structure" v.errors)
  | success {v : Validation} {d : Value} (he : isEmptyBody c.raw = false) (hv : c'.validation = some v)
    (hvalid : v.isValid = true) (hd : c'.document = some d) : RunAnswers c c' (.success d)
  /-- There is no description, for the cause that describing the interface gives. -/
  | failed {v : Validation} {failure : Failure} (he : isEmptyBody c.raw = false) (hv : c'.validation = some v)
    (hvalid : v.isValid = true) (hd : c'.document = none) (hfailure : c.getDocument.1.result = .error failure) :
    RunAnswers c c' (.failed "Failed to process ABI" failure.message)

/-- A run answers from the document as it is and from the validation and the description that are kept. -/
theorem runAnswers {c : Conversion} (hc : c.WellMade) : ∃ r, c.run.1.result = .ok r ∧ RunAnswers c c.run.2 r := by
  cases he : isEmptyBody c.raw with
  | true => exact ⟨_, run_result_of_empty he, .empty he⟩
  | false =>
    cases hv : c.currentValidation.isValid with
    | false =>
      have hstate := run_state_of_invalid he hv
      exact ⟨_, run_result_of_invalid he hv, .invalid he (by rw [hstate]; rfl) hv⟩
    | true =>
      have hvalidation : c.run.2.validation = some c.currentValidation := by
        rw [run_state_of_valid he hv, getDocument_state]
        rfl
      have hdocument : c.run.2.document = c.getDocument.1.value? := by
        rw [run_state_of_valid he hv, getDocument_state, getDocument_value]
        rfl
      cases hd : c.getDocument.1.result with
      | ok d =>
        have hsome : c.getDocument.1.value? = some d := Outcome.value?_eq_some.2 hd
        exact ⟨_, hc.run_described he hv hsome, .success he hvalidation hv (hdocument.trans hsome)⟩
      | error failure =>
        have hr := resultOf_of_failed hd (hc.stage_getDocument hd)
        refine ⟨_, (run_result_of_valid he hv).trans hr, .failed he hvalidation hv ?_ hd⟩
        rw [hdocument, Outcome.value?, hd]
        rfl

/-! ## Actions that fail -/

/-- Whether an action answers nothing, or answers with a result that is not a description. -/
def Moment.Fails (m : Moment) : Prop :=
  ∀ answer, m.answer.result = .ok answer → ∃ r, answer = .result r ∧ r.tag ≠ .success

/-- Whether an action leaves the description as it is, the interface too if it does not need the description, and the
validation too if it is not a run. -/
structure Moment.Spares (m : Moment) : Prop where
  document : m.after.document = m.before.document
  parsed : m.action ≠ .getDocument → m.action ≠ .run → m.after.parsed = m.before.parsed
  validation : m.action ≠ .run → m.after.validation = m.before.validation

theorem Moment.after_document (m : Moment) : m.after.document = m.before.document.or m.described? := by
  rw [Moment.after, perform_state]

theorem Moment.after_parsed (m : Moment) : m.after.parsed = m.before.parsed.or m.read? := by
  rw [Moment.after, perform_state]

theorem Moment.after_validation (m : Moment) : m.after.validation = m.before.validation.or m.validated? := by
  rw [Moment.after, perform_state]

/-- An action that is answered does not fail, unless the answer is a result that is no success. -/
theorem Moment.not_fails {m : Moment} {answer : Answer} (h : m.answer.result = .ok answer)
    (hresult : ∀ r, answer = .result r → r.tag = .success) : ¬m.Fails := by
  intro hfails
  obtain ⟨r, hr, htag⟩ := hfails answer h
  exact htag (hresult r hr)

/-- A description that is assembled is the answer of the action that needs it. -/
theorem Moment.not_fails_of_described {m : Moment} (hm : m.before.WellMade) (hd : m.before.document = none) {d : Value}
    (h : m.described? = some d) : ¬m.Fails := by
  obtain ⟨c, a⟩ := m
  obtain ⟨hdescribes, p, D, hp, hD, rfl⟩ := described?_eq_some h
  have hvalue : c.getDocument.1.value? = some D.toValue := by
    rw [getDocument_value, hd, Option.none_or]
    exact Option.bind_eq_some_iff.2 ⟨p, hp, Option.map_eq_some_iff.2 ⟨D, Outcome.value?_eq_some.2 hD, rfl⟩⟩
  cases a with
  | getDocument =>
    exact not_fails (Outcome.map_eq_ok.2 ⟨_, Outcome.value?_eq_some.1 hvalue, rfl⟩) fun r hr => by cases hr
  | run =>
    simp only [describes, Bool.and_eq_true, Bool.not_eq_true'] at hdescribes
    have hrun := hm.run_described hdescribes.1 hdescribes.2 hvalue
    refine not_fails (Outcome.map_eq_ok.2 ⟨_, hrun, rfl⟩) fun r hr => ?_
    cases hr
    rfl
  | _ => cases hdescribes

/-- An interface that is read is the answer of the action that needs it, or the name in it is. -/
theorem Moment.not_fails_of_read {m : Moment} (hdocument : m.action ≠ .getDocument) (hrun : m.action ≠ .run)
    (hp : m.before.parsed = none) {p : Slot Interface} (h : m.read? = some p) : ¬m.Fails := by
  obtain ⟨c, a⟩ := m
  simp only [read?, Option.ite_none_right_eq_some, Option.map_eq_some_iff] at h
  obtain ⟨hreads, i, hi, rfl⟩ := h
  have hparsed : c.getParsed.1.result = .ok (.record i) := by
    rw [← Outcome.value?_eq_some, getParsed_value, currentParsed?, hp, hi]
    rfl
  cases a with
  | getParsed => exact not_fails (Outcome.map_eq_ok.2 ⟨_, hparsed, rfl⟩) fun r hr => by cases hr
  | getContractName =>
    have hname : c.getContractName.1.result = .ok i.contractName :=
      Outcome.bind_eq_ok.2 ⟨_, hparsed, rfl⟩
    exact not_fails (Outcome.map_eq_ok.2 ⟨_, hname, rfl⟩) fun r hr => by cases hr
  | getDocument => exact absurd rfl hdocument
  | run => exact absurd rfl hrun
  | _ => cases hreads

/-- An action that fails keeps nothing that it computed last. -/
theorem failing_perform {m : Moment} (hm : m.before.WellMade) (h : m.Fails) : m.Spares where
  document := by
    rw [m.after_document]
    cases hd : m.before.document with
    | some d => rfl
    | none => exact Option.eq_none_iff_forall_ne_some.2 fun d hd' => Moment.not_fails_of_described hm hd hd' h
  parsed := fun hdocument hrun => by
    rw [m.after_parsed]
    cases hp : m.before.parsed with
    | some p => rfl
    | none => exact Option.eq_none_iff_forall_ne_some.2 fun p hp' => Moment.not_fails_of_read hdocument hrun hp hp' h
  validation := fun hrun => by
    obtain ⟨c, a⟩ := m
    cases a with
    | getValidation => exact absurd h (Moment.not_fails (Outcome.map_eq_ok.2 ⟨_, rfl, rfl⟩) fun r hr => by cases hr)
    | run => exact absurd rfl hrun
    | _ => simp [Moment.after_validation, Moment.validated?]

/-! ## Inputs that stay as they are -/

/-- Whether what is kept comes from the given inputs, and the inputs are these. -/
structure Agrees (c : Conversion) (i : Inputs) : Prop where
  inputs : c.inputs = i
  validation : ∀ v, c.validation = some v → v = validate i.raw
  parsed : ∀ p, c.parsed = some p → ∃ j, p = .record j ∧ (readInterface i.raw i.contractName).result = .ok j
  document : ∀ d, c.document = some d → ∃ D, d = D.toValue ∧ (description i.raw i.contractName i.strict).result = .ok D

/-- A conversion that has kept nothing yet. -/
def Inputs.fresh (i : Inputs) : Conversion where
  raw := i.raw
  contractName := i.contractName
  strict := i.strict

theorem agrees_fresh (i : Inputs) : i.fresh.Agrees i where
  inputs := rfl
  validation := fun v h => by cases h
  parsed := fun p h => by cases h
  document := fun d h => by cases h

theorem wellMade_fresh (i : Inputs) : i.fresh.WellMade where
  parsed := fun p h => by cases h
  document := fun d h => by cases h

section Agrees

variable {c c' : Conversion} {i : Inputs}

theorem Agrees.currentValidation_eq (h : c.Agrees i) : c.currentValidation = validate i.raw := by
  obtain rfl := h.inputs
  unfold currentValidation
  cases hv : c.validation with
  | none => rfl
  | some v => exact h.validation v hv

theorem Agrees.getParsed_result (h : c.Agrees i) :
    c.getParsed.1.result = (Slot.record <$> readInterface i.raw i.contractName).result := by
  obtain rfl := h.inputs
  unfold getParsed
  cases hp : c.parsed with
  | none => rfl
  | some p =>
    obtain ⟨j, rfl, hj⟩ := h.parsed p hp
    exact (Outcome.map_eq_ok.2 ⟨j, hj, rfl⟩).symm

theorem Agrees.getDocument_result (h : c.Agrees i) :
    c.getDocument.1.result = (Document.toValue <$> description i.raw i.contractName i.strict).result := by
  cases hd : c.document with
  | some d =>
    obtain ⟨D, rfl, hD⟩ := h.document d hd
    rw [getDocument_of_some hd]
    exact (Outcome.map_eq_ok.2 ⟨D, hD, rfl⟩).symm
  | none =>
    have hstrict : c.strict = i.strict := congrArg Inputs.strict h.inputs
    rw [getDocument_of_none hd, Outcome.bind_result_congr h.getParsed_result, description, hstrict]
    simp only [map_eq_pure_bind, bind_assoc, pure_bind]

theorem Agrees.run_result (h : c.Agrees i) : c.run.1.result = i.fresh.run.1.result := by
  have hraw : c.raw = i.raw := congrArg Inputs.raw h.inputs
  cases he : isEmptyBody i.raw with
  | true => rw [run_result_of_empty (hraw ▸ he), run_result_of_empty (c := i.fresh) he]
  | false =>
    have hv := h.currentValidation_eq
    have hv' := (agrees_fresh i).currentValidation_eq
    cases hvalid : (validate i.raw).isValid with
    | false =>
      rw [run_result_of_invalid (hraw ▸ he) (hv ▸ hvalid), run_result_of_invalid (c := i.fresh) he (hv' ▸ hvalid),
        hv, hv']
    | true =>
      rw [run_result_of_valid (hraw ▸ he) (hv ▸ hvalid), run_result_of_valid (c := i.fresh) he (hv' ▸ hvalid)]
      exact resultOf_result_congr (h.getDocument_result.trans (agrees_fresh i).getDocument_result.symm)

/-- An action is answered by the inputs. -/
theorem Agrees.result_perform (h : c.Agrees i) (a : Action) :
    (a.perform c).1.result = (a.perform i.fresh).1.result := by
  have hraw : c.raw = i.raw := congrArg Inputs.raw h.inputs
  have hfresh := agrees_fresh i
  have hparsed := h.getParsed_result.trans hfresh.getParsed_result.symm
  have hitems : c.items = i.fresh.items := by
    rw [items, hraw]
    rfl
  cases a with
  | getValidation =>
    refine Outcome.map_result_congr ?_ _
    show Except.ok c.currentValidation = Except.ok i.fresh.currentValidation
    rw [h.currentValidation_eq, hfresh.currentValidation_eq]
  | getParsed => exact Outcome.map_result_congr hparsed _
  | getDocument => exact Outcome.map_result_congr (h.getDocument_result.trans hfresh.getDocument_result.symm) _
  | getContractName => exact Outcome.map_result_congr (Outcome.bind_result_congr hparsed _) _
  | getSelectors =>
    refine Outcome.map_result_congr ?_ _
    show c.selectors.result = i.fresh.selectors.result
    rw [selectors, hitems, selectors]
  | getEventDefinitions =>
    refine Outcome.map_result_congr ?_ _
    show c.eventDefinitions.result = i.fresh.eventDefinitions.result
    rw [eventDefinitions, hitems, eventDefinitions]
  | run => exact Outcome.map_result_congr h.run_result _
  | append item =>
    refine Outcome.map_result_congr ?_ _
    show (append item c).1.result = (append item i.fresh).1.result
    unfold append
    rw [hraw, show i.fresh.raw = i.raw from rfl]
    cases appended? item i.raw <;> rfl
  | _ => rfl

theorem Agrees.currentParsed (h : c.Agrees i) {p : Slot Interface} (hp : c.currentParsed? = some p) :
    ∃ j, p = .record j ∧ (readInterface i.raw i.contractName).result = .ok j := by
  obtain rfl := h.inputs
  rcases Option.or_eq_some_iff.1 hp with hp | ⟨_, hp⟩
  · exact h.parsed p hp
  · obtain ⟨j, hj, rfl⟩ := Option.map_eq_some_iff.1 hp
    exact ⟨j, rfl, Outcome.value?_eq_some.1 hj⟩

/-- A step keeps what the inputs give. -/
theorem Agrees.perform (h : c.Agrees i) {a : Action} (ha : a.isStep = true) : (a.perform c).2.Agrees i := by
  have hchange : a.change c.inputs = i := by
    rw [h.inputs]
    cases a <;> first | rfl | cases ha
  obtain rfl := h.inputs
  rw [perform_state, hchange]
  constructor
  · rfl
  · intro v hv
    rcases Option.or_eq_some_iff.1 hv with hv | ⟨_, hv⟩
    · exact h.validation v hv
    · simp only [Moment.validated?, Option.ite_none_right_eq_some, Option.some.injEq] at hv
      exact hv.2.symm
  · intro p hp
    rcases Option.or_eq_some_iff.1 hp with hp | ⟨_, hp⟩
    · exact h.parsed p hp
    · simp only [Moment.read?, Option.ite_none_right_eq_some, Option.map_eq_some_iff] at hp
      obtain ⟨_, j, hj, rfl⟩ := hp
      exact ⟨j, rfl, Outcome.value?_eq_some.1 hj⟩
  · intro d hd
    rcases Option.or_eq_some_iff.1 hd with hd | ⟨_, hd⟩
    · exact h.document d hd
    · obtain ⟨_, p, D, hp, hD, rfl⟩ := described?_eq_some hd
      obtain ⟨j, rfl, hj⟩ := h.currentParsed hp
      exact ⟨D, rfl, description_eq_ok.2 ⟨j, hj, hD⟩⟩

end Agrees

/-! ## All at once -/

/-- What becomes of a conversion on which actions are done one after another. -/
structure KeepsSnapshots (i : Inputs) (actions : List Action) : Prop where
  /-- The inputs are what the actions make of them. -/
  inputs : (after i.fresh actions).inputs = actions.foldl (fun i a => a.change i) i
  /-- A place that is filled stays as it is. -/
  keeps : ∀ more, (after i.fresh actions).Keeps (after i.fresh (actions ++ more))
  /-- The validation is that of the document at the first moment at which it was needed. -/
  validation : (after i.fresh actions).validation = (moments i.fresh actions).findSome? Moment.validated?
  /-- The interface is what was read at the first moment at which it was needed and could be read. -/
  parsed : (after i.fresh actions).parsed = (moments i.fresh actions).findSome? Moment.read?
  /-- The description is what was assembled at the first moment at which it was needed and could be assembled. -/
  document : (after i.fresh actions).document = (moments i.fresh actions).findSome? Moment.described?
  /-- It describes the interface that is kept, with the strictness of that moment. -/
  described : ∀ d, (after i.fresh actions).document = some d → ∃ earlier m later,
    moments i.fresh actions = earlier ++ m :: later ∧ (∀ m' ∈ earlier, m'.described? = none) ∧ m.describes = true ∧
      ∃ p D, (after i.fresh actions).parsed = some p ∧ (assemble p m.before.strict).result = .ok D ∧ d = D.toValue
  failing : ∀ m ∈ moments i.fresh actions, m.Fails → m.Spares
  /-- The selectors are those of the document as it is. -/
  selectors : ∀ m ∈ moments i.fresh actions, m.action = .getSelectors →
    m.answer = .selectors <$> m.before.inputs.fresh.selectors
  eventDefinitions : ∀ m ∈ moments i.fresh actions, m.action = .getEventDefinitions →
    m.answer = .eventDefinitions <$> m.before.inputs.fresh.eventDefinitions
  run : ∀ m ∈ moments i.fresh actions, m.action = .run →
    ∃ r, m.answer.result = .ok (.result r) ∧ RunAnswers m.before m.after r
  /-- As long as the inputs stay as they are, every step is answered as it would have been at first. -/
  steady : (∀ a ∈ actions, a.isStep = true) →
    ∀ m ∈ moments i.fresh actions, m.answer.result = (m.action.perform i.fresh).1.result

/-- Whatever is done with a conversion, what it keeps are snapshots. -/
theorem keepsSnapshots (i : Inputs) (actions : List Action) : KeepsSnapshots i actions := by
  have hwellMade : ∀ m ∈ moments i.fresh actions, m.before.WellMade :=
    forall_moments (fun c a _ hc => hc.perform a) (wellMade_fresh i)
  constructor
  case inputs => exact inputs_after i.fresh actions
  case keeps =>
    intro more
    rw [after_append]
    exact keeps_after _ more
  case validation => exact validation_after i.fresh actions
  case parsed => exact parsed_after i.fresh actions
  case document => exact document_after i.fresh actions
  case described => exact fun d hd => parsed_of_described rfl hd
  case failing => exact fun m hm hfails => failing_perform (hwellMade m hm) hfails
  case selectors =>
    intro m hm ha
    rw [Moment.answer, ha]
    rfl
  case eventDefinitions =>
    intro m hm ha
    rw [Moment.answer, ha]
    rfl
  case run =>
    intro m hm ha
    obtain ⟨r, hr, hanswers⟩ := runAnswers (hwellMade m hm)
    rw [Moment.answer, Moment.after, ha]
    exact ⟨r, Outcome.map_eq_ok.2 ⟨r, hr, rfl⟩, hanswers⟩
  case steady =>
    intro hsteps m hm
    have hagrees : ∀ m ∈ moments i.fresh actions, m.before.Agrees i :=
      forall_moments (fun c a ha (hc : c.Agrees i) => hc.perform (hsteps a ha)) (agrees_fresh i)
    exact (hagrees m hm).result_perform m.action

/-- An interface that was read is described although the document is gone by then, and not otherwise. -/
example :
    let i : Inputs := ⟨.list [], .null, .bool false⟩
    (after i.fresh [.getParsed, .setRaw .null, .getDocument]).document.isSome = true ∧
      (after i.fresh [.setRaw .null, .getDocument]).document.isSome = false := by
  decide

end Conversion

end ContractApi
