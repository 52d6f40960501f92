import ContractApi.Proofs.LastWins
import ContractApi.Proofs.Names
import ContractApi.Proofs.Operations
import ContractApi.Proofs.Spelling
/-!
# No parameter is lost

Two properties of an object would be one if they had the same name. Names are told apart, so a schema has one property
for every parameter that it was made of, in the same order.

- `RequiresProperties` and `OffersProperties` say what properties the schema of an object has, and that no two have the
  same name. `KeepsMembers` says that every tuple in the description of a type requires one property for each member.
- A type is described with all its members (`keepsMembers_ofTypeWithin`), and so are the parameters of functions, events
  and errors (`KeepsFunction`, `KeepsEvent`, `KeepsError`).
- A document consists of such descriptions, whatever was overwritten (`Parts.keepsParameters`). So no parameter is lost
  where all names are texts (`parameters_kept`).
-/

namespace ContractApi

open Abi Schema

/-! ## Properties -/

/-- Whether the value is the schema of an object with the properties, in order, no two of which have the same name. -/
structure HasProperties (fields : List (Text × Value)) (v : Value) : Prop where
  type : v.at? ["type"] = some "object"
  properties : v.at? ["properties"] = some (.object (fields.map fun e => (.text e.1, e.2)))
  nodup : (fields.map (·.1)).Nodup

/-- Whether the object has the properties, and all of them are required, in the same order. -/
structure RequiresProperties (fields : List (Text × Value)) (v : Value) : Prop extends HasProperties fields v where
  required : v.at? ["required"] = some (.list (fields.map fun e => .text e.1))

/-- Whether the object has the properties, and nothing is said of any being required. -/
structure OffersProperties (fields : List (Text × Value)) (v : Value) : Prop extends HasProperties fields v where
  notRequired : v.at? ["required"] = none

/-- Whether two values are the same but for the entry under the name. -/
def SameBut (name : Text) (v w : Value) : Prop := ∀ key path, key ≠ name → v.at? (key :: path) = w.at? (key :: path)

/-- Whether the value is the JSON form of the schema that is found. -/
def IsSchemaOf (schema : Outcome Schema) (v : Value) : Prop := ∃ s, schema.result = .ok s ∧ v = s.toValue

/-- Whether the value describes the type without losing a member of it, as far down as there are levels left: the
description of a tuple requires one property for each member, which describes that member, and that of an array has the
description of its items. -/
def KeepsMembers : Nat → Value → Members → Value → Prop
  | levels + 1, .text type, members, v =>
    if type = "tuple" then
      members.isPresent = true → ∃ elements properties, members.elements = .ok elements ∧
        RequiresProperties properties v ∧ List.Forall₂ (fun m e =>
          IsSchemaOf (ofTypeWithin levels m.type m.components) e.2 ∧ KeepsMembers levels m.type m.components e.2)
          elements properties
    else
      ∀ base, IsArrayOf type base → ∃ items, v.at? ["items"] = some items ∧
        IsSchemaOf (ofTypeWithin levels (.text base) members) items ∧ KeepsMembers levels (.text base) members items
  | _, _, _, _ => True

namespace OpenApi

/-- Whether the value is the schema of the parameter and keeps all its members. -/
def DescribesParameter (p : Parameter) (v : Value) : Prop :=
  IsSchemaOf (parameterSchema p) v ∧ KeepsMembers (maxDepth + 1) (Member.read p).type (Member.read p).components v

/-- Whether the object requires one property for each of the parameters, in order, which describes it. -/
def RequiresParameters (parameters : Parameters) (v : Value) : Prop :=
  ∃ ps properties, parameters = .list ps ∧ RequiresProperties properties v ∧
    List.Forall₂ (fun p e => DescribesParameter p e.2) ps properties

/-- Whether the object has one property for each of the parameters, in order, which describes it. -/
def OffersParameters (parameters : Parameters) (v : Value) : Prop :=
  ∃ ps properties, parameters = .list ps ∧ OffersProperties properties v ∧
    List.Forall₂ (fun p e => DescribesParameter p e.2) ps properties

/-- Whether the object has one property for each of the parameters, in order, which describes it but for a description
that may be another one. -/
def NotesParameters (parameters : Parameters) (v : Value) : Prop :=
  ∃ ps properties, parameters = .list ps ∧ OffersProperties properties v ∧ List.Forall₂ (fun p e =>
    (∃ w, IsSchemaOf (parameterSchema p) w ∧ SameBut "description" w e.2) ∧
      KeepsMembers (maxDepth + 1) (Member.read p).type (Member.read p).components e.2) ps properties

/-- Whether the value describes what a function returns: a single parameter without a name directly, and otherwise an
object with one property for each. -/
structure DescribesOutputs (outputs : Parameters) (v : Value) : Prop where
  single : ∀ p, outputs = .list [p] → (Member.read p).name.isTruthy = false → DescribesParameter p v
  several : (∀ p, outputs = .list [p] → (Member.read p).name.isTruthy = true) → OffersParameters outputs v

/-- Whether the operation takes from the query just what the schema of the function's inputs has for properties: the
same names with the same schemas, in the same order. -/
def ListsInputs (f : FunctionRecord) (operation : Value) : Prop :=
  ∃ schema properties parameters, IsSchemaOf (inputSchema (.record f)) schema ∧
    schema.at? ["properties"] = some (.object properties) ∧
    (operation.at? ["parameters"]).getD (.list []) = .list parameters ∧
    List.Forall₂ (fun q e => q.at? ["name"] = some e.1.toValue ∧ q.at? ["schema"] = some e.2) parameters properties

/-! ## Parameters with their names and schemas -/

/-- A parameter with the name that it gets in a list and with its schema. -/
structure Row where
  name : Text
  parameter : Parameter
  schema : Schema

namespace Row

/-- The field for the parameter. -/
def field (r : Row) : Key × Schema := (.text r.name, r.schema)

/-- The property for the parameter. -/
def property (r : Row) : Text × Value := (r.name, r.schema.toValue)

end Row

/-- Well-formed parameters get names, no two of which are the same, and have schemas if each of them has one. -/
theorem exists_rows (default : Text) {schemaOf : Parameter → Outcome Schema} {ps : List Parameter}
    (hp : ∀ p ∈ ps, p.WellFormed) (hs : ∀ p ∈ ps, (schemaOf p).Succeeds) : ∃ rows : List Row,
      rows.map Row.parameter = ps ∧ (rows.map Row.name).Nodup ∧
        uniqueNames default (ps.map .read) = .ok (rows.map fun r => .text r.name) ∧
        ∀ r ∈ rows, (schemaOf r.parameter).result = .ok r.schema := by
  have hnamed : ∀ m ∈ ps.map Member.read, m.name.IsText := by
    refine List.forall_mem_map.2 fun p hmem => ?_
    obtain ⟨_, _, _, _, _, rfl, hname, _⟩ := (hp p hmem).exists_record
    exact hname
  obtain ⟨names, hnames, hnodup, hlength⟩ := exists_uniqueNames default hnamed
  rw [List.length_map] at hlength
  let row : Text × Parameter → Row := fun e => ⟨e.1, e.2, (schemaOf e.2).value?.getD .string⟩
  refine ⟨(names.zip ps).map row, ?_, ?_, ?_, List.forall_mem_map.2 fun e he => ?_⟩
  · rw [List.map_map]
    exact List.map_snd_zip (Nat.le_of_eq hlength.symm)
  · rw [List.map_map]
    exact (List.map_fst_zip (Nat.le_of_eq hlength)).symm ▸ hnodup
  · rw [hnames, List.map_map]
    refine congrArg Except.ok ?_
    calc names.map Key.text = ((names.zip ps).map Prod.fst).map Key.text := by
          rw [List.map_fst_zip (Nat.le_of_eq hlength)]
      _ = _ := List.map_map
  · obtain ⟨s, h⟩ := hs e.2 (List.of_mem_zip he).2
    have hv : (schemaOf e.2).value? = some s := Outcome.value?_eq_some.2 h
    simp only [row, hv, Option.getD_some, h]

theorem mapM_rows {β : Type} {step : Key × Parameter → Outcome β} {made : Row → β} {rows : List Row}
    (h : ∀ r ∈ rows, (step (.text r.name, r.parameter)).result = .ok (made r)) :
    ((rows.map fun r => (Key.text r.name, r.parameter)).mapM step).result = .ok (rows.map made) := by
  rw [Outcome.mapM_eq_ok, List.forall₂_map_left_iff, List.forall₂_map_right_iff, List.forall₂_same]
  exact h

/-! ## Types -/

theorem fieldValues_eq : ∀ fields : List (Key × Schema),
    fieldValues fields = fields.map fun f => (f.1, f.2.toValue)
  | [] => rfl
  | f :: fields => congrArg ((f.1, f.2.toValue) :: ·) (fieldValues_eq fields)

theorem hasProperties_object {rows : List Row} (hn : (rows.map Row.name).Nodup) (required : Bool)
    (description : Option Text) :
    HasProperties (rows.map Row.property) (Schema.object (rows.map Row.field) required description).toValue where
  type := by rw [Schema.toValue]; rfl
  properties := by
    rw [Schema.toValue, fieldValues_eq, List.map_map, List.map_map]
    rfl
  nodup := by
    rw [List.map_map]
    exact hn

theorem requiresProperties_tuple {rows : List Row} (hn : (rows.map Row.name).Nodup) :
    RequiresProperties (rows.map Row.property) (Schema.tuple (rows.map Row.field)).toValue where
  toHasProperties := hasProperties_object hn true none
  required := by
    rw [Schema.tuple, Schema.toValue, requirementEntry, if_pos rfl, List.map_map, List.map_map]
    rfl

theorem offersProperties_object {rows : List Row} (hn : (rows.map Row.name).Nodup) (description : Option Text) :
    OffersProperties (rows.map Row.property) (Schema.object (rows.map Row.field) false description).toValue where
  toHasProperties := hasProperties_object hn false description
  notRequired := by
    rw [Schema.toValue]
    cases description <;> rfl

/-- The members of a well-formed parameter are well-formed. -/
theorem exists_components {p : Parameter} (h : p.WellFormed) :
    ∃ components, (Member.read p).components = .read components ∧ components.WellFormed := by
  obtain ⟨_, _, _, _, components, rfl, _, hc⟩ := h.exists_record
  exact ⟨components, rfl, hc⟩

/-- The schema of a tuple has a field for each member, with a name of its own and with the schema of the member. -/
theorem exists_tuple_rows {levels : Nat} {ps : List Parameter} {s : Schema} (hps : ∀ p ∈ ps, p.WellFormed)
    (hp : (Members.read (.list ps)).isPresent = true)
    (h : (ofTypeWithin (levels + 1) "tuple" (.read (.list ps))).result = .ok s) : ∃ rows : List Row,
      rows.map Row.parameter = ps ∧ (rows.map Row.name).Nodup ∧
        uniqueNames "item" (ps.map .read) = .ok (rows.map fun r => .text r.name) ∧
        (∀ r ∈ rows, (ofTypeWithin levels (Member.read r.parameter).type (Member.read r.parameter).components).result =
          .ok r.schema) ∧ s = .tuple (rows.map Row.field) := by
  have hs : ∀ p ∈ ps, (ofTypeWithin levels (Member.read p).type (Member.read p).components).Succeeds := by
    intro p hmem
    obtain ⟨components, hc, hwf⟩ := exists_components (hps p hmem)
    rw [hc]
    exact (succeeds_ofTypeWithin _ _ _).2 (Parameters.WellFormed.mappable levels _ hwf)
  obtain ⟨rows, hrows, hn, hnames, hschemas⟩ := exists_rows "item" hps hs
  refine ⟨rows, hrows, hn, hnames, hschemas, ?_⟩
  have he : (Members.read (.list ps)).elements = .ok (ps.map .read) := rfl
  have hmapM : ((ps.map Member.read).mapM fun m => ofTypeWithin levels m.type m.components).result =
      .ok (rows.map Row.schema) := by
    rw [Outcome.mapM_eq_ok, ← hrows, List.map_map, List.forall₂_map_left_iff, List.forall₂_map_right_iff,
      List.forall₂_same]
    exact hschemas
  have hschema : (ofTypeWithin (levels + 1) "tuple" (.read (.list ps))).result = .ok (.tuple (rows.map Row.field)) := by
    rw [ofTypeWithin, if_pos rfl, if_pos hp, Outcome.ofFault_bind he, Outcome.ofFault_bind hnames,
      Outcome.bind_pure_eq_ok hmapM, List.zip_map']
    rfl
  exact Except.ok.inj (h.symm.trans hschema)

/-- A type with well-formed members is described without losing any of them. -/
theorem keepsMembers_ofTypeWithin : ∀ (levels : Nat) (type : Value) {members : Parameters} {s : Schema},
    members.WellFormed → (ofTypeWithin levels type (.read members)).result = .ok s →
      KeepsMembers levels type (.read members) s.toValue
  | 0, type, _, _, _, _ => by cases type <;> trivial
  | levels + 1, type, members, s, hm, h => by
    cases type with
    | text type =>
      rw [KeepsMembers]
      by_cases ht : type = "tuple"
      · subst ht
        rw [if_pos rfl]
        intro hp
        cases members with
        | absent => cases hp
        | stray v => exact absurd hm id
        | list ps =>
          have hps := Parameters.allWellFormed_iff.1 hm
          obtain ⟨rows, rfl, hn, _, hschemas, rfl⟩ := exists_tuple_rows hps hp h
          refine ⟨(rows.map Row.parameter).map .read, rows.map Row.property, rfl, requiresProperties_tuple hn, ?_⟩
          rw [List.map_map, List.forall₂_map_left_iff, List.forall₂_map_right_iff, List.forall₂_same]
          intro r hr
          obtain ⟨components, hc, hwf⟩ := exists_components (hps r.parameter (List.mem_map_of_mem hr))
          have hrow := hschemas r hr
          refine ⟨⟨_, hrow, rfl⟩, ?_⟩
          rw [hc] at hrow
          simp only [Function.comp_apply, hc]
          exact keepsMembers_ofTypeWithin levels _ hwf hrow
      · rw [if_neg ht]
        intro base ha
        rw [ofTypeWithin_array ha] at h
        obtain ⟨items, hitems, h⟩ := Outcome.bind_eq_ok.1 h
        cases h
        refine ⟨items.toValue, ?_, ⟨items, hitems, rfl⟩, keepsMembers_ofTypeWithin levels _ hm hitems⟩
        rw [Schema.toValue]
        rfl
    | _ => trivial

/-! ## Descriptions -/

end OpenApi

/-- Another description changes nothing else of a schema. -/
theorem sameBut_described (s : Schema) (description : Text) :
    SameBut "description" s.toValue (Schema.described s description).toValue := by
  intro key path hkey
  obtain ⟨entries, he⟩ := s.toValue_eq_object
  have hk : Key.text "description" ≠ .text key := fun h => hkey (Key.text.inj h).symm
  rw [Schema.toValue, he, withEntry, Value.at?_object, Value.at?_object, Value.lookup?, Value.lookup?,
    Table.get?_insert, if_neg hk]

theorem HasProperties.of_sameBut {fields : List (Text × Value)} {v w : Value} (hs : SameBut "description" v w)
    (h : HasProperties fields v) : HasProperties fields w where
  type := (hs "type" [] (by decide)).symm.trans h.type
  properties := (hs "properties" [] (by decide)).symm.trans h.properties
  nodup := h.nodup

theorem RequiresProperties.of_sameBut {fields : List (Text × Value)} {v w : Value} (hs : SameBut "description" v w)
    (h : RequiresProperties fields v) : RequiresProperties fields w where
  toHasProperties := h.toHasProperties.of_sameBut hs
  required := (hs "required" [] (by decide)).symm.trans h.required

/-- No member is lost by giving a type another description. -/
theorem KeepsMembers.of_sameBut {levels : Nat} {type : Value} {members : Members} {v w : Value}
    (hs : SameBut "description" v w) (h : KeepsMembers levels type members v) : KeepsMembers levels type members w := by
  cases levels with
  | zero => cases type <;> trivial
  | succ levels =>
    cases type with
    | text type =>
      rw [KeepsMembers] at h ⊢
      split at h
      · rename_i ht
        rw [if_pos ht]
        intro hp
        obtain ⟨elements, fields, he, hv, hfields⟩ := h hp
        exact ⟨elements, fields, he, hv.of_sameBut hs, hfields⟩
      · rename_i ht
        rw [if_neg ht]
        intro base ha
        obtain ⟨items, hitems, hbase⟩ := h base ha
        exact ⟨items, (hs "items" [] (by decide)).symm.trans hitems, hbase⟩
    | _ => trivial

namespace OpenApi

/-! ## Parameters -/

/-- A well-formed parameter is described without losing any of its members. -/
theorem describesParameter {p : Parameter} {s : Schema} (hp : p.WellFormed) (hs : (parameterSchema p).result = .ok s) :
    DescribesParameter p s.toValue := by
  refine ⟨⟨s, hs, rfl⟩, ?_⟩
  obtain ⟨_, type, _, _, components, rfl, _, hc⟩ := hp.exists_record
  exact keepsMembers_ofTypeWithin (maxDepth + 1) type hc hs

/-- The parameters of a list with their names, no two of which are the same, and their schemas. -/
theorem exists_named (default : Text) {parameters : Parameters} (h : parameters.IsList) : ∃ rows : List Row,
    parameters = .list (rows.map Row.parameter) ∧ (rows.map Row.name).Nodup ∧
      uniqueNames default ((rows.map Row.parameter).map .read) = .ok (rows.map fun r => .text r.name) ∧
      ∀ r ∈ rows, r.parameter.WellFormed ∧ (parameterSchema r.parameter).result = .ok r.schema := by
  obtain ⟨ps, hps, hmapped⟩ : ∃ ps, parameters = .list ps ∧ ∀ p ∈ ps, p.WellFormed ∧ p.Mapped := by
    obtain ⟨ps', hps', _, hm⟩ := h.describable
    obtain ⟨ps, hps, hwf⟩ := h
    cases hps'.symm.trans hps
    exact ⟨ps', hps, fun p hmem => ⟨hwf p hmem, hm p hmem⟩⟩
  subst hps
  obtain ⟨rows, hrows, hn, hnames, hschemas⟩ := exists_rows default (fun p hmem => (hmapped p hmem).1)
    fun p hmem => succeeds_parameterSchema.2 (hmapped p hmem).2
  refine ⟨rows, by rw [hrows], hn, hrows ▸ hnames, fun r hr => ⟨?_, hschemas r hr⟩⟩
  exact (hmapped _ (hrows ▸ List.mem_map_of_mem hr)).1

theorem namedParameters_rows {default : Text} {rows : List Row}
    (h : uniqueNames default ((rows.map Row.parameter).map .read) = .ok (rows.map fun r => .text r.name)) :
    (namedParameters default (.list (rows.map Row.parameter))).result =
      .ok (rows.map fun r => (.text r.name, r.parameter)) := by
  refine Outcome.ofFault_eq_ok.2 (except_bind_eq_ok.2 ⟨_, rfl, except_bind_eq_ok.2 ⟨_, h, ?_⟩⟩)
  rw [List.zip_map']
  rfl

theorem parameterFields_rows {default : Text} {rows : List Row}
    (h : uniqueNames default ((rows.map Row.parameter).map .read) = .ok (rows.map fun r => .text r.name))
    (hs : ∀ r ∈ rows, (parameterSchema r.parameter).result = .ok r.schema) :
    (parameterFields default (.list (rows.map Row.parameter))).result = .ok (rows.map Row.field) :=
  Outcome.bind_eq_ok.2 ⟨_, namedParameters_rows h, mapM_rows fun r hr => Outcome.bind_pure_eq_ok (hs r hr)⟩

theorem forall₂_describesParameter {rows : List Row}
    (h : ∀ r ∈ rows, r.parameter.WellFormed ∧ (parameterSchema r.parameter).result = .ok r.schema) :
    List.Forall₂ (fun p e => DescribesParameter p e.2) (rows.map Row.parameter) (rows.map Row.property) := by
  rw [List.forall₂_map_left_iff, List.forall₂_map_right_iff, List.forall₂_same]
  exact fun r hr => describesParameter (h r hr).1 (h r hr).2

/-- The schema of what a function takes requires all that it takes. -/
theorem requiresParameters_inputSchema {f : FunctionRecord} (h : f.inputs.IsList) :
    ∃ s, (inputSchema (.record f)).result = .ok s ∧ RequiresParameters f.inputs s.toValue := by
  obtain ⟨rows, hrows, hn, hnames, hschemas⟩ := exists_named "param" h
  have hfields := parameterFields_rows hnames fun r hr => (hschemas r hr).2
  rw [← hrows] at hfields
  exact ⟨_, Outcome.bind_pure_eq_ok hfields, _, _, hrows, requiresProperties_tuple hn,
    forall₂_describesParameter hschemas⟩

theorem offersParameters_object (default : Text) {parameters : Parameters} (h : parameters.IsList)
    (description : Option Text) : ∃ fields, (parameterFields default parameters).result = .ok fields ∧
      OffersParameters parameters (Schema.object fields false description).toValue := by
  obtain ⟨rows, hrows, hn, hnames, hschemas⟩ := exists_named default h
  have hfields := parameterFields_rows hnames fun r hr => (hschemas r hr).2
  rw [← hrows] at hfields
  exact ⟨_, hfields, _, _, hrows, offersProperties_object hn description, forall₂_describesParameter hschemas⟩

theorem unnamed?_eq {p : Parameter} (hp : p.WellFormed) :
    unnamed? p = .ok (if (Member.read p).name.isTruthy then none else some p) := by
  obtain ⟨_, _, _, _, _, rfl, _⟩ := hp.exists_record
  rfl

/-- What a function returns is described in full. -/
theorem describesOutputs_outputSchema {f : FunctionRecord} (h : f.outputs.IsList) :
    ∃ s, (outputSchema (.record f)).result = .ok s ∧ DescribesOutputs f.outputs s.toValue := by
  obtain ⟨ps, hps, hwf⟩ := h
  by_cases hone : ∃ p, ps = [p] ∧ (Member.read p).name.isTruthy = false
  · obtain ⟨p, rfl, hname⟩ := hone
    have hp := hwf p List.mem_cons_self
    have hmapped : p.Mapped := by
      obtain ⟨_, type, _, _, components, rfl, _, hc⟩ := hp.exists_record
      exact Parameters.WellFormed.mappable _ type hc
    obtain ⟨s, hs⟩ := succeeds_parameterSchema.2 hmapped
    have honly : onlyUnnamed? f.outputs = .ok (some p) := by
      rw [hps, onlyUnnamed?, unnamed?_eq hp, hname]
      rfl
    refine ⟨s, ?_, ⟨fun p hp' hn => ?_, fun hn => ?_⟩⟩
    · rw [outputSchema, honly]
      exact hs
    · cases hps.symm.trans hp'
      exact describesParameter hp hs
    · exact Bool.noConfusion (hname.symm.trans (hn _ hps))
  · have hnone : onlyUnnamed? f.outputs = .ok none := by
      rw [hps]
      rcases ps with _ | ⟨p, _ | ⟨q, rest⟩⟩
      · rfl
      · have hname : (Member.read p).name.isTruthy = true := (Bool.not_eq_false _).mp fun h => hone ⟨p, rfl, h⟩
        rw [onlyUnnamed?, unnamed?_eq (hwf p List.mem_cons_self), if_pos hname]
      · rfl
    obtain ⟨fields, hfields, hoffers⟩ := offersParameters_object "return" ⟨ps, hps, hwf⟩ none
    refine ⟨_, ?_, ⟨fun p hp hn => ?_, fun _ => hoffers⟩⟩
    · rw [outputSchema, hnone]
      exact Outcome.bind_pure_eq_ok hfields
    · cases hps.symm.trans hp
      exact absurd ⟨p, rfl, hn⟩ hone

theorem offersParameters_errorSchema {r : ErrorRecord} (h : r.inputs.IsList) :
    ∃ s, (errorSchema (.record r)).result = .ok s ∧ OffersParameters r.inputs s.toValue := by
  obtain ⟨fields, hfields, hoffers⟩ := offersParameters_object "param" h (some ("Error: " ++ r.name.display))
  exact ⟨_, Outcome.bind_pure_eq_ok hfields, hoffers⟩

/-! ## Events -/

/-- The property for the parameter of an event. -/
def Row.noted (r : Row) : Row := { r with schema := .described r.schema (eventNote r.parameter) }

theorem eventSchema_rows {e : EventRecord} {rows : List Row} (he : e.inputs = .list (rows.map Row.parameter))
    (hn : uniqueNames "param" ((rows.map Row.parameter).map .read) = .ok (rows.map fun r => .text r.name))
    (hs : ∀ r ∈ rows, (parameterSchema r.parameter).result = .ok r.schema) : (eventSchema (.record e)).result =
      .ok (.object ((rows.map Row.noted).map Row.field) false (some ("Event: " ++ e.name.display))) := by
  have hfields : (namedParameters "param" e.inputs >>= fun named => named.mapM fun n => do
      return (n.1, Schema.described (← parameterSchema n.2) (eventNote n.2))).result =
      .ok ((rows.map Row.noted).map Row.field) := by
    rw [List.map_map, he]
    exact Outcome.bind_eq_ok.2 ⟨_, namedParameters_rows hn, mapM_rows fun r hr => Outcome.bind_pure_eq_ok (hs r hr)⟩
  rw [eventSchema, ← bind_assoc]
  exact Outcome.bind_pure_eq_ok hfields

theorem notesParameters_eventSchema {e : EventRecord} (h : e.inputs.IsList) :
    ∃ s, (eventSchema (.record e)).result = .ok s ∧ NotesParameters e.inputs s.toValue := by
  obtain ⟨rows, hrows, hn, hnames, hschemas⟩ := exists_named "param" h
  have hn' : ((rows.map Row.noted).map Row.name).Nodup := by
    rw [List.map_map]
    exact hn
  refine ⟨_, eventSchema_rows hrows hnames fun r hr => (hschemas r hr).2, _, _, hrows,
    offersProperties_object hn' (some ("Event: " ++ e.name.display)), ?_⟩
  rw [List.map_map, List.forall₂_map_left_iff, List.forall₂_map_right_iff, List.forall₂_same]
  intro r hr
  obtain ⟨hwf, hs⟩ := hschemas r hr
  have hsame := sameBut_described r.schema (eventNote r.parameter)
  exact ⟨⟨_, ⟨r.schema, hs, rfl⟩, hsame⟩, (describesParameter hwf hs).2.of_sameBut hsame⟩

/-! ## Query parameters -/

/-- The parameters that a request takes from the query. -/
def Request.queryParameters : Request → List QueryParameter
  | .query parameters => parameters
  | _ => []

theorem getD_parameters (o : Operation) : (o.toValue.at? ["parameters"]).getD (.list []) =
    .list (o.request.queryParameters.map QueryParameter.toValue) := by
  obtain ⟨summary, description, operationId, request, response⟩ := o
  cases request <;> rfl

/-- The query parameter for an input. -/
def Row.query (r : Row) : QueryParameter := ⟨.text r.name, (Member.read r.parameter).type, r.schema⟩

theorem queryParameters_rows {rows : List Row}
    (h : uniqueNames "param" ((rows.map Row.parameter).map .read) = .ok (rows.map fun r => .text r.name))
    (hs : ∀ r ∈ rows, r.parameter.WellFormed ∧ (parameterSchema r.parameter).result = .ok r.schema) :
    (queryParameters (.list (rows.map Row.parameter))).result = .ok (rows.map Row.query) := by
  refine Outcome.bind_eq_ok.2 ⟨_, namedParameters_rows h, mapM_rows fun r hr => ?_⟩
  obtain ⟨hwf, hschema⟩ := hs r hr
  refine Outcome.bind_eq_ok.2 ⟨_, hschema, ?_⟩
  obtain ⟨_, type, _, _, _, heq, _, _⟩ := hwf.exists_record
  simp only [Row.query, heq, Member.type]
  rfl

/-- A function that leaves the state alone takes from the query just what its inputs are described by. -/
theorem listsInputs_operation {f : FunctionRecord} (h : f.inputs.IsList) (hm : f.httpMethod = .text "GET")
    {o : Operation} (ho : (Operation.ofFunction (.record f)).result = .ok o) : ListsInputs f o.toValue := by
  obtain ⟨rows, hrows, hn, hnames, hschemas⟩ := exists_named "param" h
  have hfields := parameterFields_rows hnames fun r hr => (hschemas r hr).2
  have hqueries := queryParameters_rows hnames hschemas
  rw [← hrows] at hfields hqueries
  have hparameters : o.request.queryParameters = rows.map Row.query := by
    have hr := (ofFunction_eq_ok ho).1
    rw [requestOf, hm] at hr
    split at hr
    · simp only [if_true] at hr
      obtain ⟨qs, hqs, heq⟩ := Outcome.map_eq_ok.1 hr
      cases hqs.symm.trans hqueries
      rw [← heq]
      rfl
    · -- without inputs there is nothing in the query
      rename_i hp
      rw [← Except.ok.inj hr]
      cases rows with
      | nil => rfl
      | cons r rows => exact absurd (by rw [hrows]; rfl) hp
  have hlist := getD_parameters o
  rw [hparameters, List.map_map] at hlist
  refine ⟨_, _, _, ⟨_, Outcome.bind_pure_eq_ok hfields, rfl⟩, (requiresProperties_tuple hn).properties, hlist, ?_⟩
  rw [List.map_map, List.forall₂_map_left_iff, List.forall₂_map_right_iff, List.forall₂_same]
  exact fun r _ => ⟨rfl, rfl⟩

/-! ## Records -/

/-- Whether no parameter of the function is lost: its inputs are all required, its outputs are all described, and if it
leaves the state alone, the query has just its inputs. -/
structure KeepsFunction (f : FunctionRecord) : Prop where
  input : ∃ s, (inputSchema (.record f)).result = .ok s ∧ RequiresParameters f.inputs s.toValue
  output : ∃ s, (outputSchema (.record f)).result = .ok s ∧ DescribesOutputs f.outputs s.toValue
  query : ∃ o, (Operation.ofFunction (.record f)).result = .ok o ∧
    (f.httpMethod = .text "GET" → ListsInputs f o.toValue)

/-- Whether no parameter of the event is lost. -/
def KeepsEvent (e : EventRecord) : Prop :=
  ∃ s, (eventSchema (.record e)).result = .ok s ∧ NotesParameters e.inputs s.toValue

/-- Whether no parameter of the error is lost. -/
def KeepsError (r : ErrorRecord) : Prop :=
  ∃ s, (errorSchema (.record r)).result = .ok s ∧ OffersParameters r.inputs s.toValue

/-- Whether every schema of the document was made of some record without losing a parameter of it, and every operation
of some function. -/
structure KeepsParameters (fs : List FunctionRecord) (es : List EventRecord) (rs : List ErrorRecord)
    (document : Value) : Prop where
  schemas : ∀ name schema, document.at? ["components", "schemas", name] = some schema →
    (∃ f ∈ fs, name = requestName f.name ∧ RequiresParameters f.inputs schema) ∨
      (∃ f ∈ fs, name = responseName f.name ∧ DescribesOutputs f.outputs schema) ∨
      (∃ e ∈ es, name = e.name.display ++ "Event" ∧ NotesParameters e.inputs schema) ∨
      ∃ r ∈ rs, name = r.name.display ++ "Error" ∧ OffersParameters r.inputs schema
  operations : ∀ path method operation, document.at? ["paths", path, method] = some operation →
    ∃ f ∈ fs, path = pathOf f.name ∧ method = methodKey f ∧ (f.httpMethod = .text "GET" → ListsInputs f operation)

namespace Parts

variable {fs : List FunctionRecord} {es : List EventRecord} {rs : List ErrorRecord} (parts : Parts fs es rs)

/-- Every schema that is written was made of some record, and its name says of which. -/
theorem schemas_cases {m : SchemaKind × Text} {s : Schema} (h : (m, s) ∈ parts.schemas) :
    (∃ f ∈ fs, m = (.request, f.name.display) ∧ (inputSchema (.record f)).result = .ok s) ∨
      (∃ f ∈ fs, m = (.response, f.name.display) ∧ (outputSchema (.record f)).result = .ok s) ∨
      (∃ e ∈ es, m = (.event, e.name.display) ∧ (eventSchema (.record e)).result = .ok s) ∨
      ∃ r ∈ rs, m = (.error, r.name.display) ∧ (errorSchema (.record r)).result = .ok s := by
  rcases List.mem_append.1 h with h | h
  · rcases List.mem_append.1 h with h | h
    · obtain ⟨f, hmem, h⟩ := List.mem_flatMap.1 h
      rcases List.mem_append.1 h with h | h
      · split at h
        · rename_i hp
          cases List.mem_singleton.1 h
          exact .inl ⟨f, hmem, rfl, parts.input_eq f hmem hp⟩
        · cases h
      · split at h
        · rename_i hp
          cases List.mem_singleton.1 h
          exact .inr (.inl ⟨f, hmem, rfl, parts.output_eq f hmem hp⟩)
        · cases h
    · obtain ⟨e, hmem, heq⟩ := List.mem_map.1 h
      cases heq
      exact .inr (.inr (.inl ⟨e, hmem, rfl, parts.event_eq e hmem⟩))
  · obtain ⟨r, hmem, heq⟩ := List.mem_map.1 h
    cases heq
    exact .inr (.inr (.inr ⟨r, hmem, rfl, parts.error_eq r hmem⟩))

/-- Every schema of the document is one that is written. -/
theorem mem_schemas_of_get? {contractName : Value} {name : Text} {s : Schema}
    (h : Table.get? name (parts.document contractName).schemas = some s) :
    ∃ m, schemaKey m = name ∧ (m, s) ∈ parts.schemas := by
  rw [document, Table.get?_ofList] at h
  obtain ⟨e, he, rfl⟩ := Option.map_eq_some_iff.1 h
  have hname := of_decide_eq_true (Table.findRev?_some (p := fun e : Text × Schema => e.1 = name) he)
  obtain ⟨⟨m, s⟩, hmem, rfl⟩ := List.mem_map.1 (Table.mem_of_findRev? he)
  exact ⟨m, hname, hmem⟩

/-- A document consists of descriptions that lose no parameter, whatever was overwritten. -/
theorem keepsParameters (hf : ∀ f ∈ fs, f.inputs.IsList ∧ f.outputs.IsList) (he : ∀ e ∈ es, e.inputs.IsList)
    (hr : ∀ r ∈ rs, r.inputs.IsList) (contractName : Value) :
    KeepsParameters fs es rs (parts.document contractName).toValue where
  schemas := by
    intro name schema h
    rw [at?_schema] at h
    obtain ⟨s, hs, rfl⟩ := Option.map_eq_some_iff.1 h
    obtain ⟨m, rfl, hmem⟩ := parts.mem_schemas_of_get? hs
    obtain ⟨f, hmemf, rfl, hmade⟩ | ⟨f, hmemf, rfl, hmade⟩ | ⟨e, hmeme, rfl, hmade⟩ | ⟨r, hmemr, rfl, hmade⟩ :=
      parts.schemas_cases hmem
    · obtain ⟨s, hs, hkeeps⟩ := requiresParameters_inputSchema (hf f hmemf).1
      cases hs.symm.trans hmade
      exact .inl ⟨f, hmemf, rfl, hkeeps⟩
    · obtain ⟨s, hs, hkeeps⟩ := describesOutputs_outputSchema (hf f hmemf).2
      cases hs.symm.trans hmade
      exact .inr (.inl ⟨f, hmemf, rfl, hkeeps⟩)
    · obtain ⟨s, hs, hkeeps⟩ := notesParameters_eventSchema (he e hmeme)
      cases hs.symm.trans hmade
      exact .inr (.inr (.inl ⟨e, hmeme, rfl, hkeeps⟩))
    · obtain ⟨s, hs, hkeeps⟩ := offersParameters_errorSchema (hr r hmemr)
      cases hs.symm.trans hmade
      exact .inr (.inr (.inr ⟨r, hmemr, rfl, hkeeps⟩))
  operations := by
    intro path method operation h
    rw [at?_operation, parts.get?_paths, Option.map_map] at h
    obtain ⟨f, hlast, rfl⟩ := Option.map_eq_some_iff.1 h
    obtain ⟨hmem, hpath, hmethod⟩ := lastFunction?_some hlast
    exact ⟨f, hmem, hpath.symm, hmethod.symm, fun hm =>
      listsInputs_operation (hf f hmem).1 hm (parts.operation_eq f hmem)⟩

end Parts

/-- Where the names of functions and of all parameters, however deep they lie, are texts, no parameter is lost: neither
by the schemas and the operation of its own record nor in a document of the interface. -/
theorem parameters_kept {contractName : Value} {fs : List FunctionRecord} {es : List EventRecord}
    {rs : List ErrorRecord} (hf : ∀ f ∈ fs, f.name.IsText ∧ f.inputs.IsList ∧ f.outputs.IsList)
    (he : ∀ e ∈ es, e.inputs.IsList) (hr : ∀ r ∈ rs, r.inputs.IsList) :
    (∀ f ∈ fs, KeepsFunction f) ∧ (∀ e ∈ es, KeepsEvent e) ∧ (∀ r ∈ rs, KeepsError r) ∧
      ∀ strict d, (assemble (.record (.ofRecords contractName fs es rs)) strict).result = .ok d →
        KeepsParameters fs es rs d.toValue := by
  refine ⟨fun f hmem => ?_, fun e hmem => notesParameters_eventSchema (he e hmem),
    fun r hmem => offersParameters_errorSchema (hr r hmem), fun strict d hd => ?_⟩
  · obtain ⟨hname, hi, ho⟩ := hf f hmem
    obtain ⟨o, hoperation⟩ := (succeeds_operation hi.describable).2 hname
    exact ⟨requiresParameters_inputSchema hi, describesOutputs_outputSchema ho, o, hoperation,
      fun hm => listsInputs_operation hi hm hoperation⟩
  · have hb := (assemble_eq_ok.1 hd).1
    obtain ⟨parts⟩ := exists_parts_of_built hb
    cases (parts.buildDocument_eq _).symm.trans hb
    exact parts.keepsParameters (fun f hmem => (hf f hmem).2) he hr contractName

/-- Names that repeat one another, or the names that others get, are told apart. -/
theorem parameters_kept_repeated :
    let flag : Text → Parameter := fun name => .record name "bool" "bool" (.bool false) .absent
    let lots := Parameter.record "lots" "tuple[]" "" (.bool false) (.list [flag "", flag "item0", flag "item0"])
    let fs := [taking "offer" "GET" [flag "a", flag "a", flag "a_1", flag "", flag "param3", lots]]
    (∀ f ∈ fs, KeepsFunction f) ∧ ∃ d,
      (assemble (.record (.ofRecords "Market" fs [] [])) (.bool false)).result = .ok d ∧
        KeepsParameters fs [] [] d.toValue := by
  intro flag lots fs
  have hflag : ∀ name, (flag name).WellFormed := fun name => ⟨⟨name, rfl⟩, trivial⟩
  have hlots : lots.WellFormed := ⟨⟨_, rfl⟩, hflag _, hflag _, hflag _, trivial⟩
  have hf : ∀ f ∈ fs, f.WellFormed := by
    refine List.forall_mem_singleton.2 (taking_wellFormed (.inl rfl) (Parameters.allWellFormed_iff.1 ?_))
    exact ⟨hflag _, hflag _, hflag _, hflag _, hflag _, hlots, trivial⟩
  obtain ⟨hkeeps, -, -, hdocument⟩ := @parameters_kept "Market" fs [] []
    (fun f hmem => ⟨(hf f hmem).name, (hf f hmem).inputs, (hf f hmem).outputs⟩)
    (fun _ h => absurd h List.not_mem_nil) fun _ h => absurd h List.not_mem_nil
  obtain ⟨parts⟩ := @exists_parts fs [] [] hf (fun _ h => absurd h List.not_mem_nil)
    fun _ h => absurd h List.not_mem_nil
  have hd := assemble_eq_ok.2 ⟨parts.buildDocument_eq "Market", fun h : (Value.bool false).isTruthy = true => nomatch h⟩
  exact ⟨hkeeps, _, hd, hdocument _ _ hd⟩

end OpenApi

end ContractApi
