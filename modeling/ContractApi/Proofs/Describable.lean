import ContractApi.Proofs.WellFormed
/-!
# What can be described

Nothing but a name stands in the way of a description: that of a function has to be a text, and that of a parameter must
be something that can be looked up.

- Members can be told apart exactly if their names are `Nameable` (`returns_uniqueNames`), and a type has a schema exactly
  if it is `Mappable`, that is, if this holds of all members that become fields (`succeeds_ofTypeWithin`).
- Parameters are `Describable` if this holds of all of them; exactly then the schemas of what a function takes or returns
  and of what an event or an error reports exist (`succeeds_inputSchema` and those that follow), and so does the operation
  of a function if its name is a text (`succeeds_operation`).
- Well-formed records are describable (`FunctionRecord.WellFormed.describable`).
-/

namespace ContractApi

namespace Schema

open Abi

/-! ## Names -/

/-- Whether the name counts as nothing or can be looked up. -/
def Nameable (name : Value) : Prop := name.isTruthy = true → ∃ key, name.toKey? = some key

theorem returns_ownName (default : Text) (index : Nat) (name : Value) :
    Returns (ownName default index name) ↔ Nameable name := by
  unfold ownName Nameable Value.orElse
  by_cases hn : name.isTruthy = true
  · rw [if_pos hn]
    simp only [hn, true_implies]
    cases name.toKey? with
    | none => exact iff_of_false (not_returns_error _) fun ⟨_, h⟩ => by cases h
    | some key => exact iff_of_true (returns_ok key) ⟨key, rfl⟩
  · rw [if_neg hn]
    exact iff_of_true (returns_ok _) fun h => absurd h hn

theorem returns_uniqueNamesFrom (default : Text) : ∀ (names : List Value) (index : Nat) (taken : List Key),
    Returns (uniqueNamesFrom default index taken names) ↔ ∀ name ∈ names, Nameable name
  | [], _, _ => iff_of_true (returns_ok []) fun _ h => absurd h List.not_mem_nil
  | name :: names, index, taken => by
    rw [uniqueNamesFrom, List.forall_mem_cons, ← returns_ownName default index]
    refine returns_bind_and fun own => ?_
    exact returns_bind_pure.trans (returns_uniqueNamesFrom default names (index + 1) _)

/-- Members can be told apart exactly if all their names can be. -/
theorem returns_uniqueNames (default : Text) (members : List Member) :
    Returns (uniqueNames default members) ↔ ∀ m ∈ members, Nameable m.name := by
  rw [uniqueNames, returns_uniqueNamesFrom, List.forall_mem_map]

theorem length_uniqueNamesFrom {default : Text} : ∀ {names : List Value} {index : Nat} {taken keys : List Key},
    uniqueNamesFrom default index taken names = .ok keys → keys.length = names.length
  | [], _, _, keys, h => by
    cases h
    rfl
  | name :: names, index, taken, keys, h => by
    obtain ⟨own, _, h⟩ := except_bind_eq_ok.1 h
    obtain ⟨rest, hrest, h⟩ := except_bind_eq_ok.1 h
    cases h
    rw [List.length_cons, List.length_cons, length_uniqueNamesFrom hrest]

/-! ## Types -/

/-- Whether all members that become fields have names that can be told apart: those of the tuple that the type is or of
which it is an array, and theirs in turn, as far as `levels` levels go. -/
def Mappable : Nat → Value → Members → Prop
  | levels + 1, .text type, members =>
    if type = "tuple" then members.isPresent = true → ∃ elements, members.elements = .ok elements ∧
      (∀ m ∈ elements, Nameable m.name) ∧ ∀ m ∈ elements, Mappable levels m.type m.components
    else
      match itemType? type with
      | some base => Mappable levels (.text base) members
      | none => True
  | _, _, _ => True

/-- A type has a schema exactly if it is mappable. -/
theorem succeeds_ofTypeWithin : ∀ (levels : Nat) (type : Value) (members : Members),
    (ofTypeWithin levels type members).Succeeds ↔ Mappable levels type members
  | 0, type, members => by
    cases type <;> exact iff_of_true ⟨_, rfl⟩ trivial
  | levels + 1, type, members => by
    cases type with
    | text type =>
      simp only [ofTypeWithin, Mappable]
      split
      · split
        · -- the fields of a tuple
          rename_i hp
          rw [Outcome.succeeds_bind]
          simp only [hp, true_implies, Outcome.ofFault_eq_ok]
          refine exists_congr fun elements => and_congr_right fun _ => ?_
          refine (Outcome.succeeds_bind_and fun names => Outcome.succeeds_bind_pure).trans ?_
          rw [Outcome.succeeds_ofFault, returns_uniqueNames, Outcome.succeeds_mapM]
          refine and_congr_right fun _ => forall_congr' fun m => forall_congr' fun _ => ?_
          exact succeeds_ofTypeWithin levels m.type m.components
        · rename_i hp
          exact iff_of_true (Outcome.succeeds_pure _) fun h => absurd h hp
      · cases itemType? type with
        | some base => exact Outcome.succeeds_bind_pure.trans (succeeds_ofTypeWithin levels (.text base) members)
        | none => exact iff_of_true (Outcome.succeeds_pure _) trivial
    | null | bool _ | int _ | float _ | list _ | object _ => exact iff_of_true ⟨_, rfl⟩ trivial

end Schema

namespace Abi

/-! ## Records -/

/-- Whether the parameter has a type with a schema. -/
def Parameter.Mapped : Parameter → Prop
  | .record _ type _ _ components => Schema.Mappable (maxDepth + 1) type (.read components)
  | .stray _ => False

/-- Whether there is a list, the parameters of which have types with schemas and names that can be told apart. -/
def Parameters.Describable (parameters : Parameters) : Prop := ∃ ps, parameters = .list ps ∧
  (∀ p ∈ ps, Schema.Nameable (Schema.Member.read p).name) ∧ ∀ p ∈ ps, p.Mapped

/-- Whether the function has a text for a name and describable inputs and outputs. -/
structure FunctionRecord.Describable (f : FunctionRecord) : Prop where
  name : f.name.IsText
  inputs : f.inputs.Describable
  outputs : f.outputs.Describable

/-- A well-formed parameter is a record. -/
theorem Parameter.WellFormed.exists_record {p : Parameter} (h : p.WellFormed) :
    ∃ name type internalType indexed components, p = .record name type internalType indexed components ∧
      name.IsText ∧ components.WellFormed := by
  cases p with
  | record name type internalType indexed components => exact ⟨_, _, _, _, _, rfl, h.1, h.2⟩
  | stray v => exact absurd h id

theorem Parameter.WellFormed.nameable {p : Parameter} (h : p.WellFormed) :
    Schema.Nameable (Schema.Member.read p).name := by
  obtain ⟨name, _, _, _, _, rfl, ⟨t, rfl⟩, _⟩ := h.exists_record
  exact fun _ => ⟨.text t, rfl⟩

/-- Every type with well-formed members is mappable, however deep it lies. -/
theorem Parameters.WellFormed.mappable : ∀ (levels : Nat) (type : Value) {members : Parameters}, members.WellFormed →
    Schema.Mappable levels type (.read members)
  | 0, type, members, _ => by cases type <;> trivial
  | levels + 1, type, members, h => by
    cases type with
    | text type =>
      rw [Schema.Mappable]
      split
      · intro hp
        cases members with
        | absent => cases hp
        | stray v => exact absurd h id
        | list ps =>
          have hps := Parameters.allWellFormed_iff.1 h
          refine ⟨ps.map .read, rfl, List.forall_mem_map.2 fun p hmem => (hps p hmem).nameable,
            List.forall_mem_map.2 fun p hmem => ?_⟩
          obtain ⟨_, _, _, _, _, rfl, _, hc⟩ := (hps p hmem).exists_record
          exact Parameters.WellFormed.mappable levels _ hc
      · cases Schema.itemType? type with
        | some base => exact Parameters.WellFormed.mappable levels _ h
        | none => trivial
    | null | bool _ | int _ | float _ | list _ | object _ => trivial

theorem Parameters.IsList.describable {parameters : Parameters} (h : parameters.IsList) : parameters.Describable := by
  obtain ⟨ps, rfl, hps⟩ := h
  refine ⟨ps, rfl, fun p hmem => (hps p hmem).nameable, fun p hmem => ?_⟩
  obtain ⟨_, _, _, _, _, rfl, _, hc⟩ := (hps p hmem).exists_record
  exact Parameters.WellFormed.mappable _ _ hc

/-- Well-formed functions are describable. -/
theorem FunctionRecord.WellFormed.describable {f : FunctionRecord} (h : f.WellFormed) : f.Describable :=
  ⟨h.name, h.inputs.describable, h.outputs.describable⟩

theorem Parameters.Describable.exists_list {parameters : Parameters} (h : parameters.Describable) :
    ∃ ps, parameters = .list ps := by
  obtain ⟨ps, hps, _⟩ := h
  exact ⟨ps, hps⟩

end Abi

namespace OpenApi

open Abi

/-! ## Parameters -/

theorem succeeds_parameterSchema {p : Parameter} : (parameterSchema p).Succeeds ↔ p.Mapped := by
  cases p with
  | record name type internalType indexed components => exact Schema.succeeds_ofTypeWithin _ _ _
  | stray v => exact iff_of_false (fun ⟨_, h⟩ => by cases h) id

variable {parameters : Parameters}

/-- Parameters get names exactly if these can be told apart, and what is named is what was given. -/
theorem namedParameters_list (default : Text) (ps : List Parameter) :
    ((namedParameters default (.list ps)).Succeeds ↔ ∀ p ∈ ps, Schema.Nameable (Schema.Member.read p).name) ∧
      ∀ named, (namedParameters default (.list ps)).result = .ok named → named.map (·.2) = ps := by
  constructor
  · rw [namedParameters, Outcome.succeeds_ofFault]
    refine (returns_bind_pure (x := Schema.uniqueNames default (ps.map .read))).trans ?_
    rw [Schema.returns_uniqueNames, List.forall_mem_map]
  · intro named h
    obtain ⟨elements, he, h⟩ := except_bind_eq_ok.1 (Outcome.ofFault_eq_ok.1 h)
    cases he
    obtain ⟨keys, hkeys, h⟩ := except_bind_eq_ok.1 h
    cases h
    refine List.map_snd_zip (Nat.le_of_eq ?_)
    rw [Schema.length_uniqueNamesFrom hkeys, List.length_map, List.length_map]

/-- A step for each named parameter succeeds exactly if the names can be told apart and it succeeds for every one. -/
theorem succeeds_forNamed {β : Type} (default : Text) (hl : ∃ ps, parameters = .list ps)
    {step : Key × Parameter → Outcome β} (hs : ∀ e, (step e).Succeeds ↔ e.2.Mapped) :
    (namedParameters default parameters >>= fun named => named.mapM step).Succeeds ↔ parameters.Describable := by
  obtain ⟨ps, rfl⟩ := hl
  obtain ⟨hnames, hmap⟩ := namedParameters_list default ps
  have hsteps : ∀ named, (namedParameters default (.list ps)).result = .ok named →
      ((named.mapM step).Succeeds ↔ ∀ p ∈ ps, p.Mapped) := by
    intro named h
    rw [Outcome.succeeds_mapM, ← hmap named h, List.forall_mem_map]
    exact forall_congr' fun e => forall_congr' fun _ => hs e
  rw [Outcome.succeeds_bind]
  constructor
  · rintro ⟨named, h, hn⟩
    exact ⟨ps, rfl, hnames.1 ⟨named, h⟩, (hsteps named h).1 hn⟩
  · rintro ⟨ps', heq, hn, hp⟩
    cases heq
    obtain ⟨named, h⟩ := hnames.2 hn
    exact ⟨named, h, (hsteps named h).2 hp⟩

/-! ## Schemas -/

theorem succeeds_parameterFields (default : Text) (hl : ∃ ps, parameters = .list ps) :
    (parameterFields default parameters).Succeeds ↔ parameters.Describable :=
  succeeds_forNamed default hl fun _ => Outcome.succeeds_bind_pure.trans succeeds_parameterSchema

theorem succeeds_inputSchema {f : FunctionRecord} (hl : ∃ ps, f.inputs = .list ps) :
    (inputSchema (.record f)).Succeeds ↔ f.inputs.Describable :=
  Outcome.succeeds_bind_pure.trans (succeeds_parameterFields "param" hl)

/-- A single parameter without a name is described directly; its name is not needed. -/
theorem succeeds_outputSchema {f : FunctionRecord} (hl : ∃ ps, f.outputs = .list ps) :
    (outputSchema (.record f)).Succeeds ↔ f.outputs.Describable := by
  have hfields := succeeds_parameterFields "return" hl
  have hnone : onlyUnnamed? f.outputs = .ok none →
      ((outputSchema (.record f)).Succeeds ↔ f.outputs.Describable) := by
    intro h
    rw [outputSchema, h]
    exact Outcome.succeeds_bind_pure.trans hfields
  obtain ⟨ps, hps⟩ := hl
  match ps with
  | [] => exact hnone (by rw [hps]; rfl)
  | [.stray v] =>
    have herror : onlyUnnamed? f.outputs = .error (.noProperty v.kind "name") := by
      rw [hps]
      rfl
    refine iff_of_false ?_ ?_
    · rw [outputSchema, herror]
      rintro ⟨s, h⟩
      cases h
    · rintro ⟨ps', heq, _, hp⟩
      cases hps.symm.trans heq
      exact hp _ List.mem_cons_self
  | [.record name type internalType indexed components] =>
    by_cases hn : name.isTruthy = true
    · refine hnone ?_
      rw [hps]
      exact congrArg Except.ok (if_pos hn)
    · have hsome : onlyUnnamed? f.outputs = .ok (some (.record name type internalType indexed components)) := by
        rw [hps]
        exact congrArg Except.ok (if_neg hn)
      rw [outputSchema, hsome]
      refine succeeds_parameterSchema.trans ?_
      constructor
      · intro h
        exact ⟨_, hps, List.forall_mem_singleton.2 fun ht => absurd ht hn, List.forall_mem_singleton.2 h⟩
      · rintro ⟨ps', heq, _, hp⟩
        cases hps.symm.trans heq
        exact hp _ List.mem_cons_self
  | _ :: _ :: _ => exact hnone (by rw [hps]; rfl)

theorem succeeds_eventSchema {e : EventRecord} (hl : ∃ ps, e.inputs = .list ps) :
    (eventSchema (.record e)).Succeeds ↔ e.inputs.Describable := by
  rw [eventSchema, ← bind_assoc]
  refine Outcome.succeeds_bind_pure.trans (succeeds_forNamed "param" hl fun _ => ?_)
  exact Outcome.succeeds_bind_pure.trans succeeds_parameterSchema

theorem succeeds_errorSchema {e : ErrorRecord} (hl : ∃ ps, e.inputs = .list ps) :
    (errorSchema (.record e)).Succeeds ↔ e.inputs.Describable :=
  Outcome.succeeds_bind_pure.trans (succeeds_parameterFields "param" hl)

/-! ## Operations -/

theorem succeeds_queryParameters (hl : ∃ ps, parameters = .list ps) :
    (queryParameters parameters).Succeeds ↔ parameters.Describable :=
  succeeds_forNamed "param" hl fun _ => Outcome.succeeds_bind_pure.trans succeeds_parameterSchema

theorem succeeds_requestOf {f : FunctionRecord} (h : f.inputs.Describable) : (requestOf f).Succeeds := by
  unfold requestOf
  split
  · split
    · split
      · rw [map_eq_pure_bind]
        exact Outcome.succeeds_bind_pure.2 ((succeeds_queryParameters h.exists_list).2 h)
      · exact Outcome.succeeds_pure _
    · exact Outcome.succeeds_pure _
  · exact Outcome.succeeds_pure _

theorem returns_capitalized {name : Value} : Returns (capitalized name) ↔ name.IsText := by
  cases name with
  | text t => exact iff_of_true (returns_ok _) ⟨t, rfl⟩
  | _ => exact iff_of_false (not_returns_error _) fun ⟨_, h⟩ => by cases h

/-- If its inputs are describable, a function has an operation exactly if its name is a text. -/
theorem succeeds_operation {f : FunctionRecord} (h : f.inputs.Describable) :
    (Operation.ofFunction (.record f)).Succeeds ↔ f.name.IsText := by
  have hr := succeeds_requestOf h
  have hs : (Operation.ofFunction (.record f)).Succeeds ↔
      (Outcome.ofFault (capitalized f.name)).Succeeds ∧ (requestOf f).Succeeds :=
    Outcome.succeeds_bind_and fun _ => Outcome.succeeds_bind_pure
  rw [hs, Outcome.succeeds_ofFault, returns_capitalized]
  exact and_iff_left hr

end OpenApi

end ContractApi
