import ContractApi.Proofs.AfterReading
import ContractApi.Proofs.ReadMembers
import ContractApi.Proofs.Spelling
/-!
# How deep types may lie

Validation and reading count the levels of tuples alone, the description of a type those of arrays as well.

- `LiesBelow` counts the arrays and the tuples on the way from a type to one below it. A description gives up exactly on
  the texts that lie at the first level which is not supported, both kinds counted (`typeTooDeep_iff_liesAt`).
- A document tells of what was given up in the descriptions of its parameters and nothing else
  (`typeTooDeep_assemble`).
- In an interface that was read, no type lies below more tuples than are supported, so that nothing is given up but
  below arrays (`typeTooDeep_of_read`). Below arrays it is, whether or not the document is valid (`valid_typeTooDeep`).
-/

namespace ContractApi

namespace Schema

open Abi

/-! ## Levels -/

/-- Whether the text is a type that lies below a type with its members, so many arrays and tuples further down. -/
inductive LiesBelow (t : Text) : Nat → Nat → Value → Members → Prop
  /-- A type lies nowhere below itself. -/
  | here {members : Members} : LiesBelow t 0 0 (.text t) members
  | array {arrays tuples : Nat} {type base : Text} {members : Members} (ha : IsArrayOf type base)
      (h : LiesBelow t arrays tuples (.text base) members) : LiesBelow t (arrays + 1) tuples (.text type) members
  | tuple {arrays tuples : Nat} {members : Members} {elements : List Member} {m : Member}
      (hp : members.isPresent = true) (he : members.elements = .ok elements) (hm : m ∈ elements)
      (h : LiesBelow t arrays tuples m.type m.components) : LiesBelow t arrays (tuples + 1) "tuple" members

/-- Whether the text is a type that lies so many levels below, arrays and tuples taken together. -/
def LiesAt (t : Text) (levels : Nat) (type : Value) (members : Members) : Prop :=
  ∃ arrays tuples, arrays + tuples = levels ∧ LiesBelow t arrays tuples type members

variable {t : Text} {levels : Nat} {type : Value} {members : Members}

theorem liesAt_zero : LiesAt t 0 type members ↔ type = .text t := by
  constructor
  · rintro ⟨arrays, tuples, hsum, h⟩
    cases h with
    | here => rfl
    | array _ _ => omega
    | tuple _ _ _ _ => omega
  · rintro rfl
    exact ⟨0, 0, rfl, .here⟩

/-- What lies below an array lies below its items. -/
theorem liesAt_array {word base : Text} (ha : IsArrayOf word base) :
    LiesAt t (levels + 1) (.text word) members ↔ LiesAt t levels (.text base) members := by
  constructor
  · rintro ⟨arrays, tuples, hsum, h⟩
    cases h with
    | here => omega
    | @array arrays _ _ base' _ ha' h =>
      cases ha.base_inj ha'
      exact ⟨arrays, tuples, by omega, h⟩
    | tuple _ _ _ _ => exact absurd rfl ha.ne_tuple
  · rintro ⟨arrays, tuples, hsum, h⟩
    exact ⟨arrays + 1, tuples, by omega, .array ha h⟩

/-- What lies below a tuple lies below one of its members. -/
theorem liesAt_tuple {elements : List Member} (hp : members.isPresent = true) (he : members.elements = .ok elements) :
    LiesAt t (levels + 1) "tuple" members ↔ ∃ m ∈ elements, LiesAt t levels m.type m.components := by
  constructor
  · rintro ⟨arrays, tuples, hsum, h⟩
    cases h with
    | here => omega
    | array ha _ => exact absurd rfl ha.ne_tuple
    | @tuple _ tuples _ _ m _ he' hm h =>
      cases he.symm.trans he'
      exact ⟨m, hm, arrays, tuples, by omega, h⟩
  · rintro ⟨m, hm, arrays, tuples, hsum, h⟩
    exact ⟨arrays, tuples + 1, by omega, .tuple hp he hm h⟩

/-- Nothing lies below any other type. -/
theorem not_liesAt_succ (ha : ∀ word base, type = .text word → ¬IsArrayOf word base)
    (ht : type = "tuple" → members.isPresent = false) : ¬LiesAt t (levels + 1) type members := by
  rintro ⟨arrays, tuples, hsum, h⟩
  cases h with
  | here => omega
  | array harray _ => exact ha _ _ rfl harray
  | tuple hp _ _ _ => exact Bool.noConfusion (hp.symm.trans (ht rfl))

theorem liesBelow_nested {base : Text} (h : CodePoint.ofChar '\n' ∉ base) (levels : Nat) (members : Members) :
    LiesBelow base levels 0 (.text (nested levels base)) members := by
  induction levels with
  | zero => exact .here
  | succ levels ih => exact .array (isArrayOf_nested h levels) ih

/-- The description of a tuple tells what those of its members tell. -/
theorem mem_notices_tuple {n : Notice} (hp : members.isPresent = true)
    (hs : (ofTypeWithin (levels + 1) "tuple" members).Succeeds) : ∃ elements, members.elements = .ok elements ∧
      (∀ m ∈ elements, (ofTypeWithin levels m.type m.components).Succeeds) ∧
      (n ∈ (ofTypeWithin (levels + 1) "tuple" members).notices ↔
        ∃ m ∈ elements, n ∈ (ofTypeWithin levels m.type m.components).notices) := by
  rw [ofTypeWithin, if_pos rfl, if_pos hp] at hs ⊢
  obtain ⟨elements, he, hs⟩ := Outcome.succeeds_bind.1 hs
  obtain ⟨names, hn, hs⟩ := Outcome.succeeds_bind.1 hs
  obtain ⟨schemas, hschemas⟩ := Outcome.succeeds_bind_pure.1 hs
  have he := Outcome.ofFault_eq_ok.1 he
  refine ⟨elements, he, Outcome.succeeds_mapM.1 ⟨schemas, hschemas⟩, ?_⟩
  rw [Outcome.ofFault_bind he, Outcome.ofFault_bind (Outcome.ofFault_eq_ok.1 hn), Outcome.mem_notices_bind_pure,
    Outcome.mem_notices_mapM hschemas]

/-- The description of a type that nothing lies below tells nothing, while there are levels left. -/
theorem notices_single (ha : ∀ word base, type = .text word → ¬IsArrayOf word base)
    (ht : type = "tuple" → members.isPresent = false) : (ofTypeWithin (levels + 1) type members).notices = [] := by
  cases type with
  | text word =>
    by_cases hw : word = "tuple"
    · subst hw
      rw [ofTypeWithin, if_pos rfl, ht rfl]
      rfl
    · rw [ofTypeWithin, if_neg hw, itemType?_eq_none.2 fun base => ha word base rfl]
      rfl
  | _ => rfl

/-- The description of a type gives up exactly on the texts that lie as many levels down as there are left. -/
theorem typeTooDeep_iff_liesAt : ∀ {levels : Nat} {type : Value} {members : Members},
    (ofTypeWithin levels type members).Succeeds →
      (.typeTooDeep t ∈ (ofTypeWithin levels type members).notices ↔ LiesAt t levels type members)
  | 0, type, members, _ => by
    rw [liesAt_zero]
    cases type with
    | text word =>
      have hnotices : (ofTypeWithin 0 (.text word) members).notices = [.typeTooDeep word] := rfl
      rw [hnotices, List.mem_singleton, Notice.typeTooDeep.injEq, Value.text.injEq]
      exact eq_comm
    | _ => exact iff_of_false List.not_mem_nil fun h => by cases h
  | levels + 1, type, members, hs => by
    by_cases ht : type = "tuple" ∧ members.isPresent = true
    · obtain ⟨rfl, hp⟩ := ht
      obtain ⟨elements, he, hsucceeds, hnotices⟩ := mem_notices_tuple hp hs
      rw [hnotices, liesAt_tuple hp he]
      refine exists_congr fun m => and_congr_right fun hm => ?_
      exact typeTooDeep_iff_liesAt (hsucceeds m hm)
    · by_cases ha : ∃ word base, type = .text word ∧ IsArrayOf word base
      · obtain ⟨word, base, rfl, ha⟩ := ha
        rw [ofTypeWithin_array ha] at hs ⊢
        rw [Outcome.mem_notices_bind_pure, liesAt_array ha]
        exact typeTooDeep_iff_liesAt (Outcome.succeeds_bind_pure.1 hs)
      · have ha : ∀ word base, type = .text word → ¬IsArrayOf word base := fun word base hw h => ha ⟨word, base, hw, h⟩
        have ht : type = "tuple" → members.isPresent = false := fun hw => Bool.eq_false_iff.2 fun hp => ht ⟨hw, hp⟩
        rw [notices_single ha ht]
        exact iff_of_false List.not_mem_nil (not_liesAt_succ ha ht)

/-- No type lies below more tuples than members were read with. -/
theorem LiesBelow.tuples_le {arrays tuples : Nat} (h : LiesBelow t arrays tuples type members) :
    ∀ {levels : Nat} {v : Value} {parameters : Parameters}, members = .read parameters →
      readMembers levels v = .ok parameters → tuples ≤ levels := by
  induction h with
  | here => exact fun _ _ => Nat.zero_le _
  | array _ _ ih => exact ih
  | tuple hp he hm _ ih =>
    intro levels v parameters heq hread
    subst heq
    rcases readMembers_eq_ok hread with ⟨_, rfl | rfl⟩ | ⟨n, ps, qs, rfl, rfl, rfl, hps⟩
    · cases hp
    · cases hp
    · cases he
      obtain ⟨q, hq, rfl⟩ := List.mem_map.1 hm
      obtain ⟨p, _, hpq⟩ := exists_of_forall₂ hps q hq
      obtain ⟨v, components, hc, _, hrec⟩ := components_read hpq
      have hle := ih hrec hc
      omega

end Schema

namespace Abi

/-! ## The parameters of an interface -/

/-- The parameters, as far as there are any. -/
def Parameters.records : Parameters → List Parameter
  | .list ps => ps
  | _ => []

/-- What a function takes and returns. -/
def FunctionRecord.parameters (f : FunctionRecord) : List Parameter := f.inputs.records ++ f.outputs.records

def Slot.record? {α : Type} : Slot α → Option α
  | .record a => some a
  | .stray _ => none

/-- The records in the list. -/
def Slots.records {α : Type} : Slots α → List α
  | .list slots => slots.filterMap Slot.record?
  | .stray _ => []

theorem Slots.records_list {α : Type} (l : List α) : (Slots.list (l.map .record)).records = l := by
  rw [Slots.records, List.filterMap_map]
  exact List.filterMap_some

/-- All parameters of functions, events and errors. -/
def Interface.parameters (i : Interface) : List Parameter :=
  i.functions.records.flatMap FunctionRecord.parameters ++ i.events.records.flatMap (fun e => e.inputs.records) ++
    i.errors.records.flatMap fun r => r.inputs.records

theorem Interface.parameters_ofRecords (contractName : Value) (fs : List FunctionRecord) (es : List EventRecord)
    (rs : List ErrorRecord) : (Interface.ofRecords contractName fs es rs).parameters =
      fs.flatMap FunctionRecord.parameters ++ es.flatMap (fun e => e.inputs.records) ++
        rs.flatMap fun r => r.inputs.records := by
  simp only [Interface.parameters, Interface.ofRecords, Slots.records_list]

/-- A parameter of a list that was read was read itself. -/
theorem exists_read_of_mem_records {v : Value} {parameters : Parameters}
    (h : ∃ ps, readParameters v = .ok ps ∧ parameters = .list ps) : ∀ p ∈ parameters.records, ∃ q,
      readParameter maxDepth q = .ok p := by
  obtain ⟨ps, hps, rfl⟩ := h
  obtain ⟨n, qs, hn, _, hread⟩ := readParametersWithin_eq_ok hps
  cases hn
  intro p hp
  obtain ⟨q, _, hq⟩ := exists_of_forall₂ hread p hp
  exact ⟨q, hq⟩

theorem exists_read_of_mem_parameters {raw contractName : Value} {i : Interface}
    (h : (readInterface raw contractName).result = .ok i) :
    ∀ p ∈ i.parameters, ∃ q, readParameter maxDepth q = .ok p := by
  obtain ⟨items, fs, es, rs, _, rfl, hf, he, hr⟩ := readInterface_records h
  intro p hp
  rw [Interface.parameters_ofRecords] at hp
  simp only [List.mem_append, List.mem_flatMap] at hp
  rcases hp with (⟨f, hmem, hp⟩ | ⟨e, hmem, hp⟩) | ⟨r, hmem, hp⟩
  · obtain ⟨entries, _, _, hread⟩ := hf f hmem
    obtain ⟨_, hinputs, houtputs, _⟩ := readFunction_eq_ok hread
    rcases List.mem_append.1 hp with hp | hp
    · exact exists_read_of_mem_records hinputs p hp
    · exact exists_read_of_mem_records houtputs p hp
  · obtain ⟨entries, _, _, hread⟩ := he e hmem
    exact exists_read_of_mem_records (readEvent_eq_ok hread).2.1 p hp
  · obtain ⟨entries, _, _, hread⟩ := hr r hmem
    exact exists_read_of_mem_records (readError_eq_ok hread).2.1 p hp

end Abi

namespace OpenApi

open Abi

/-! ## What is told of parameters -/

variable {n : Notice} {parameters : Parameters}

/-- A step for each named parameter tells what is told of the parameters. -/
theorem mem_notices_forNamed {β : Type} (default : Text) (h : parameters.Describable)
    {step : Key × Parameter → Outcome β} (hs : ∀ e, (step e).Succeeds ↔ e.2.Mapped)
    (hn : ∀ e, n ∈ (step e).notices ↔ n ∈ (parameterSchema e.2).notices) :
    n ∈ (namedParameters default parameters >>= fun named => named.mapM step).notices ↔
      ∃ p ∈ parameters.records, n ∈ (parameterSchema p).notices := by
  have hsteps := (succeeds_forNamed default h.exists_list hs).2 h
  obtain ⟨ps, rfl⟩ := h.exists_list
  obtain ⟨named, hnamed, r, hr⟩ := Outcome.succeeds_bind.1 hsteps
  have hps : named.map (·.2) = ps := (namedParameters_list default ps).2 named hnamed
  have hquiet : n ∉ (namedParameters default (.list ps)).notices := List.not_mem_nil
  rw [Outcome.mem_notices_bind_of_ok hnamed, or_iff_right hquiet, Outcome.mem_notices_mapM hr, Parameters.records,
    ← hps]
  constructor
  · rintro ⟨e, he, h⟩
    exact ⟨e.2, List.mem_map.2 ⟨e, he, rfl⟩, (hn e).1 h⟩
  · rintro ⟨p, hp, h⟩
    obtain ⟨e, he, rfl⟩ := List.mem_map.1 hp
    exact ⟨e, he, (hn e).2 h⟩

theorem mem_notices_parameterFields (default : Text) (h : parameters.Describable) :
    n ∈ (parameterFields default parameters).notices ↔ ∃ p ∈ parameters.records, n ∈ (parameterSchema p).notices :=
  mem_notices_forNamed default h (fun _ => Outcome.succeeds_bind_pure.trans succeeds_parameterSchema)
    fun _ => Outcome.mem_notices_bind_pure

theorem mem_notices_inputSchema {f : FunctionRecord} (h : f.inputs.Describable) :
    n ∈ (inputSchema (.record f)).notices ↔ ∃ p ∈ f.inputs.records, n ∈ (parameterSchema p).notices :=
  Outcome.mem_notices_bind_pure.trans (mem_notices_parameterFields "param" h)

theorem onlyUnnamed?_eq_some : ∀ {ps : List Parameter} {p : Parameter},
    onlyUnnamed? (.list ps) = .ok (some p) → ps = [p]
  | [], _, h => by cases h
  | [.stray _], _, h => by cases h
  | [.record name type internalType indexed components], p, h => by
    by_cases hn : name.isTruthy = true
    · have hnone : onlyUnnamed? (.list [.record name type internalType indexed components]) = .ok none :=
        congrArg Except.ok (if_pos hn)
      cases hnone.symm.trans h
    · have hsome : onlyUnnamed? (.list [.record name type internalType indexed components]) =
          .ok (some (.record name type internalType indexed components)) := congrArg Except.ok (if_neg hn)
      cases hsome.symm.trans h
      rfl
  | _ :: _ :: _, _, h => by cases h

/-- It makes no difference to what is told whether a single parameter is described directly. -/
theorem mem_notices_outputSchema {f : FunctionRecord} (h : f.outputs.Describable) :
    n ∈ (outputSchema (.record f)).notices ↔ ∃ p ∈ f.outputs.records, n ∈ (parameterSchema p).notices := by
  obtain ⟨s, hs⟩ := (succeeds_outputSchema h.exists_list).2 h
  obtain ⟨only?, honly, _⟩ := Outcome.bind_eq_ok.1 hs
  have honly := Outcome.ofFault_eq_ok.1 honly
  rw [outputSchema, Outcome.ofFault_bind honly]
  cases only? with
  | none => exact Outcome.mem_notices_bind_pure.trans (mem_notices_parameterFields "return" h)
  | some p =>
    obtain ⟨ps, hps⟩ := h.exists_list
    rw [hps] at honly ⊢
    rw [onlyUnnamed?_eq_some honly]
    constructor
    · exact fun h => ⟨p, List.mem_singleton.2 rfl, h⟩
    · rintro ⟨p', hp, h⟩
      rwa [List.mem_singleton.1 hp] at h

theorem mem_notices_eventSchema {e : EventRecord} (h : e.inputs.Describable) :
    n ∈ (eventSchema (.record e)).notices ↔ ∃ p ∈ e.inputs.records, n ∈ (parameterSchema p).notices := by
  rw [eventSchema, ← bind_assoc]
  refine Outcome.mem_notices_bind_pure.trans (mem_notices_forNamed "param" h (fun _ => ?_) fun _ => ?_)
  · exact Outcome.succeeds_bind_pure.trans succeeds_parameterSchema
  · exact Outcome.mem_notices_bind_pure

theorem mem_notices_errorSchema {r : ErrorRecord} (h : r.inputs.Describable) :
    n ∈ (errorSchema (.record r)).notices ↔ ∃ p ∈ r.inputs.records, n ∈ (parameterSchema p).notices :=
  Outcome.mem_notices_bind_pure.trans (mem_notices_parameterFields "param" h)

/-- An operation tells nothing that is not told of an input of its function. -/
theorem exists_of_mem_notices_operation {f : FunctionRecord} (h : f.inputs.Describable)
    (hn : n ∈ (operationEntry f).notices) : ∃ p ∈ f.inputs.records, n ∈ (parameterSchema p).notices := by
  have hquery : n ∈ (queryParameters f.inputs).notices := by
    have hn := Outcome.mem_notices_bind_pure.1 hn
    rw [Operation.ofFunction] at hn
    cases hc : capitalized f.name with
    | error fault =>
      rw [hc, Outcome.bind_of_error rfl] at hn
      cases hn
    | ok capital =>
      rw [Outcome.ofFault_bind hc, Outcome.mem_notices_bind_pure, requestOf] at hn
      split at hn
      · split at hn
        · split at hn
          · rw [map_eq_pure_bind] at hn
            exact Outcome.mem_notices_bind_pure.1 hn
          · cases hn
        · cases hn
      · cases hn
  refine (mem_notices_forNamed "param" h (fun _ => ?_) fun _ => ?_).1 hquery
  · exact Outcome.succeeds_bind_pure.trans succeeds_parameterSchema
  · exact Outcome.mem_notices_bind_pure

/-! ## What is told of records -/

/-- Entering a schema tells what the making of it tells. -/
theorem exists_mem_entry {name : Text} {schema : Outcome Schema} :
    (∃ o ∈ [(do return .schema name (← schema) : Outcome DocumentEntry)], n ∈ o.notices) ↔ n ∈ schema.notices := by
  constructor
  · rintro ⟨o, ho, hn⟩
    rw [List.mem_singleton.1 ho] at hn
    exact Outcome.mem_notices_bind_pure.1 hn
  · exact fun hn => ⟨_, List.mem_singleton.2 rfl, Outcome.mem_notices_bind_pure.2 hn⟩

theorem exists_mem_schemaEntryIf (mention : SchemaKind × Text) {parameters : Parameters} {schema : Outcome Schema}
    (h : n ∈ schema.notices ↔ ∃ p ∈ parameters.records, n ∈ (parameterSchema p).notices) :
    (∃ o ∈ schemaEntryIf parameters.isPresent mention schema, n ∈ o.notices) ↔
      ∃ p ∈ parameters.records, n ∈ (parameterSchema p).notices := by
  cases hp : parameters.isPresent with
  | false =>
    refine iff_of_false (fun ⟨_, ho, _⟩ => absurd ho List.not_mem_nil) ?_
    rintro ⟨p, hmem, _⟩
    cases parameters with
    | list ps =>
      cases ps with
      | nil => cases hmem
      | cons _ _ => cases hp
    | _ => cases hmem
  | true =>
    rw [← h, schemaEntryIf, if_pos rfl]
    exact exists_mem_entry

/-- What a function enters tells what is told of its parameters. -/
theorem exists_mem_functionEntries {f : FunctionRecord} (hm : f.httpMethod.IsText) (h : f.Describable) :
    (∃ o ∈ functionEntries (.record f), n ∈ o.notices) ↔ ∃ p ∈ f.parameters, n ∈ (parameterSchema p).notices := by
  have hi := exists_mem_schemaEntryIf (.request, f.name.display) (mem_notices_inputSchema (n := n) h.inputs)
  have ho := exists_mem_schemaEntryIf (.response, f.name.display) (mem_notices_outputSchema (n := n) h.outputs)
  rw [functionEntries_eq hm, FunctionRecord.parameters]
  constructor
  · rintro ⟨o, hmem, hn⟩
    rcases List.mem_cons.1 hmem with rfl | hmem
    · obtain ⟨p, hp, hn⟩ := exists_of_mem_notices_operation h.inputs hn
      exact ⟨p, List.mem_append_left _ hp, hn⟩
    · rcases List.mem_append.1 hmem with hmem | hmem
      · obtain ⟨p, hp, hn⟩ := hi.1 ⟨o, hmem, hn⟩
        exact ⟨p, List.mem_append_left _ hp, hn⟩
      · obtain ⟨p, hp, hn⟩ := ho.1 ⟨o, hmem, hn⟩
        exact ⟨p, List.mem_append_right _ hp, hn⟩
  · rintro ⟨p, hp, hn⟩
    rcases List.mem_append.1 hp with hp | hp
    · obtain ⟨o, hmem, hn⟩ := hi.2 ⟨p, hp, hn⟩
      exact ⟨o, List.mem_cons_of_mem _ (List.mem_append_left _ hmem), hn⟩
    · obtain ⟨o, hmem, hn⟩ := ho.2 ⟨p, hp, hn⟩
      exact ⟨o, List.mem_cons_of_mem _ (List.mem_append_right _ hmem), hn⟩

theorem exists_mem_eventEntries {e : EventRecord} (h : e.inputs.Describable) :
    (∃ o ∈ eventEntries (.record e), n ∈ o.notices) ↔ ∃ p ∈ e.inputs.records, n ∈ (parameterSchema p).notices :=
  exists_mem_entry.trans (mem_notices_eventSchema h)

theorem exists_mem_errorEntries {r : ErrorRecord} (h : r.inputs.Describable) :
    (∃ o ∈ errorEntries (.record r), n ∈ o.notices) ↔ ∃ p ∈ r.inputs.records, n ∈ (parameterSchema p).notices :=
  exists_mem_entry.trans (mem_notices_errorSchema h)

/-- A run that succeeds tells of the types that the making of its entries gave up. -/
theorem typeTooDeep_enterAll {t : Text} : ∀ {os : List (Outcome DocumentEntry)} {d : Document},
    (∀ o ∈ os, o.Succeeds) → (.typeTooDeep t ∈ (enterAll d os).notices ↔ ∃ o ∈ os, .typeTooDeep t ∈ o.notices)
  | [], _, _ => iff_of_false List.not_mem_nil fun ⟨_, h, _⟩ => absurd h List.not_mem_nil
  | o :: os, d, hs => by
    obtain ⟨⟨e, he⟩, hs⟩ := List.forall_mem_cons.1 hs
    have henter : .typeTooDeep t ∉ (e.enter d).notices := by
      unfold DocumentEntry.enter
      split
      · exact fun h => by cases List.mem_singleton.1 h
      · exact List.not_mem_nil
    rw [enterAll, Outcome.mem_notices_bind_of_ok he, Outcome.mem_notices_bind_of_ok (enter_result d e),
      or_iff_right henter, typeTooDeep_enterAll hs]
    exact (List.exists_mem_cons_iff (fun o => Notice.typeTooDeep t ∈ o.notices) o os).symm

/-! ## What is told of an interface -/

theorem parameterSchema_iff_liesAt {p : Parameter} {t : Text} (h : p.Mapped) :
    .typeTooDeep t ∈ (parameterSchema p).notices ↔
      Schema.LiesAt t (maxDepth + 1) (Schema.Member.read p).type (Schema.Member.read p).components := by
  cases p with
  | record name type internalType indexed components =>
    exact Schema.typeTooDeep_iff_liesAt ((Schema.succeeds_ofTypeWithin _ _ _).2 h)
  | stray v => exact absurd h id

/-- What there is in the lists of some elements there is in other lists of theirs. -/
theorem exists_mem_flatMap_congr {α β γ : Type} {l : List α} {f : α → List β} {g : α → List γ} {P : β → Prop}
    {Q : γ → Prop} (h : ∀ a ∈ l, (∃ b ∈ f a, P b) ↔ ∃ c ∈ g a, Q c) :
    (∃ b ∈ l.flatMap f, P b) ↔ ∃ c ∈ l.flatMap g, Q c := by
  constructor
  · rintro ⟨b, hb, hP⟩
    obtain ⟨a, ha, hb⟩ := List.mem_flatMap.1 hb
    obtain ⟨c, hc, hQ⟩ := (h a ha).1 ⟨b, hb, hP⟩
    exact ⟨c, List.mem_flatMap.2 ⟨a, ha, hc⟩, hQ⟩
  · rintro ⟨c, hc, hQ⟩
    obtain ⟨a, ha, hc⟩ := List.mem_flatMap.1 hc
    obtain ⟨b, hb, hP⟩ := (h a ha).2 ⟨c, hc, hQ⟩
    exact ⟨b, List.mem_flatMap.2 ⟨a, ha, hb⟩, hP⟩

theorem exists_mem_append {α : Type} {l l' : List α} {P : α → Prop} :
    (∃ a ∈ l ++ l', P a) ↔ (∃ a ∈ l, P a) ∨ ∃ a ∈ l', P a := by
  simp only [List.mem_append, or_and_right, exists_or]

section Assembled

variable {raw contractName : Value} {i : Interface} {d : Document}
  (hi : (readInterface raw contractName).result = .ok i) (hd : (assemble (.record i) (.bool false)).result = .ok d)

include hi hd

/-- All parameters of an interface that was assembled have types with schemas. -/
theorem mapped_of_assembled : ∀ p ∈ i.parameters, p.Mapped := by
  have hdescribable := (succeeds_assemble hi).1 ⟨d, hd⟩
  obtain ⟨items, fs, es, rs, _, rfl, _⟩ := readInterface_records hi
  have hlist : ∀ {parameters : Parameters}, parameters.Describable → ∀ p ∈ parameters.records, p.Mapped := by
    rintro _ ⟨ps, rfl, _, hmapped⟩
    exact hmapped
  have hf := Slots.all_records.1 hdescribable.functions
  have he := Slots.all_records.1 hdescribable.events
  have hr := Slots.all_records.1 hdescribable.errors
  intro p hp
  rw [Interface.parameters_ofRecords] at hp
  simp only [List.mem_append, List.mem_flatMap] at hp
  rcases hp with (⟨f, hmem, hp⟩ | ⟨e, hmem, hp⟩) | ⟨r, hmem, hp⟩
  · rcases List.mem_append.1 hp with hp | hp
    · exact hlist (hf f hmem).inputs p hp
    · exact hlist (hf f hmem).outputs p hp
  · exact hlist (he e hmem) p hp
  · exact hlist (hr r hmem) p hp

/-- A document tells exactly of the types that were given up in the descriptions of its parameters. -/
theorem typeTooDeep_assemble {t : Text} : .typeTooDeep t ∈ (assemble (.record i) (.bool false)).notices ↔
    ∃ p ∈ i.parameters,
      Schema.LiesAt t (maxDepth + 1) (Schema.Member.read p).type (Schema.Member.read p).components := by
  have hmapped := mapped_of_assembled hi hd
  have hdescribable := (succeeds_assemble hi).1 ⟨d, hd⟩
  have hentered := (buildDocument_eq_ok.1 (assemble_eq_ok.1 hd).1).1
  obtain ⟨items, fs, es, rs, _, rfl, hfs, _⟩ := readInterface_records hi
  have hf := Slots.all_records.1 hdescribable.functions
  have he := Slots.all_records.1 hdescribable.events
  have hr := Slots.all_records.1 hdescribable.errors
  have hm : ∀ f ∈ fs, f.httpMethod.IsText := by
    intro f hmem
    obtain ⟨entries, _, _, hread⟩ := hfs f hmem
    obtain ⟨_, _, _, _, _, method, _, hm⟩ := readFunction_eq_ok hread
    exact ⟨method, hm⟩
  have hnotices : .typeTooDeep t ∈
      (buildDocument (.record (.ofRecords (contractNameOf raw contractName) fs es rs))).notices ↔ _ :=
    typeTooDeep_enterAll hentered
  rw [notices_assemble, hnotices, documentEntries_ofRecords, exists_mem_append, exists_mem_append,
    exists_mem_flatMap_congr fun f hmem => exists_mem_functionEntries (hm f hmem) (hf f hmem),
    exists_mem_flatMap_congr fun e hmem => exists_mem_eventEntries (he e hmem),
    exists_mem_flatMap_congr fun r hmem => exists_mem_errorEntries (hr r hmem), ← exists_mem_append,
    ← exists_mem_append, ← Interface.parameters_ofRecords]
  exact exists_congr fun p => and_congr_right fun hp => parameterSchema_iff_liesAt (hmapped p hp)

/-- In the document of an interface that was read, exactly those types are given up that lie at the first level which is
not supported, arrays and tuples counted. Tuples alone never lead there. -/
theorem typeTooDeep_of_read (t : Text) :
    (.typeTooDeep t ∈ (assemble (.record i) (.bool false)).notices ↔ ∃ p ∈ i.parameters, ∃ arrays tuples,
      arrays + tuples = maxDepth + 1 ∧
        Schema.LiesBelow t arrays tuples (Schema.Member.read p).type (Schema.Member.read p).components) ∧
      ∀ p ∈ i.parameters, ∀ arrays tuples,
        Schema.LiesBelow t arrays tuples (Schema.Member.read p).type (Schema.Member.read p).components →
          tuples ≤ maxDepth := by
  refine ⟨typeTooDeep_assemble hi hd, fun p hp arrays tuples h => ?_⟩
  obtain ⟨q, hq⟩ := exists_read_of_mem_parameters hi p hp
  obtain ⟨v, components, hc, _, hrec⟩ := Schema.components_read hq
  exact h.tuples_le hrec hc

end Assembled

end OpenApi

/-! ## Arrays that are nested too deep -/

open Abi OpenApi

/-- A function of numbers in arrays, nested one level deeper than is supported. -/
def deepFunction : Value := .object [("type", "function"), ("name", "f"),
  ("inputs", .list [.object [("type", .text (Schema.nested (maxDepth + 1) "uint8"))]])]

def deepArrays : Value := .list [deepFunction]

theorem plain_nested {base : Text} (h : base.Plain) : ∀ levels : Nat, (Schema.nested levels base).Plain
  | 0 => h
  | levels + 1 => (plain_nested h levels).append (Text.plain_ofString "[]")

theorem deepArrays_wellFormed : DocumentWellFormed deepArrays where
  items := by
    have hname : IsName (.text (Schema.nested (maxDepth + 1) "uint8")) := ⟨_, rfl, by
      rw [Schema.nested]
      exact List.append_ne_nil_of_right_ne_nil _ (by decide)⟩
    refine ⟨_, rfl, List.cons_ne_nil _ _, List.forall_mem_singleton.2 ⟨_, rfl, ?_⟩⟩
    refine ⟨⟨_, rfl, by decide⟩, ?_, trivial, .inl rfl⟩
    exact List.forall_mem_singleton.2 ⟨_, rfl, hname, .inl rfl, trivial⟩
  plain := by
    have hs := Text.plain_ofString
    have ht := plain_nested (hs "uint8")
    simp [deepArrays, deepFunction, Value.Plain, Value.ItemsPlain, Value.EntriesPlain, Key.display, hs, ht]

theorem exists_assembled {raw : Value} (h : DocumentWellFormed raw) (contractName : Value) : ∃ i d,
    (readInterface raw contractName).result = .ok i ∧ (assemble (.record i) (.bool false)).result = .ok d := by
  obtain ⟨fs, es, rs, hi, hf, he, hr⟩ := exists_read h contractName
  obtain ⟨parts⟩ := exists_parts hf he hr
  have hb := parts.buildDocument_eq (contractNameOf raw contractName)
  exact ⟨_, _, hi, assemble_eq_ok.2 ⟨hb, fun hs => by cases hs⟩⟩

/-- The number lies below as many arrays as there are levels and one more. -/
theorem liesAt_deepArrays {contractName : Value} {i : Interface}
    (h : (readInterface deepArrays contractName).result = .ok i) : ∃ p ∈ i.parameters,
      Schema.LiesAt "uint8" (maxDepth + 1) (Schema.Member.read p).type (Schema.Member.read p).components := by
  obtain ⟨items, records, hl, hr, rfl⟩ := readInterface_eq_ok.1 h
  cases hl
  have hitem : deepFunction ∈ [deepFunction].filter (ItemKind.of · = .function) := List.mem_cons_self
  obtain ⟨entries, record, index, hentries, hk, hrecord, hread⟩ := exists_read_of_kind hr hitem
  cases hentries
  rw [readItem, hk] at hread
  obtain ⟨f, hf, rfl⟩ := except_map_eq_ok.1 hread
  obtain ⟨_, ⟨ps, hps, hinputs⟩, _⟩ := readFunction_eq_ok hf
  obtain ⟨n, qs, hn, hqs, hparameters⟩ := readParametersWithin_eq_ok hps
  cases hqs
  obtain ⟨p, hmem, hp⟩ := exists_of_forall₂ (List.Forall₂.flip hparameters) _ List.mem_cons_self
  have htype : (Schema.Member.read p).type = .text (Schema.nested (maxDepth + 1) "uint8") := (Schema.type_read hp).symm
  refine ⟨p, ?_, maxDepth + 1, 0, rfl, ?_⟩
  · rw [Interface.ofItems_eq, Interface.parameters_ofRecords]
    refine List.mem_append_left _ (List.mem_append_left _ (List.mem_flatMap.2 ⟨f, ?_, List.mem_append_left _ ?_⟩))
    · exact List.mem_filterMap.2 ⟨_, hrecord, rfl⟩
    · rw [hinputs]
      exact hmem
  · rw [htype]
    exact Schema.liesBelow_nested (by decide) _ _

theorem typeTooDeep_of_read_deepArrays : ∃ i d, (readInterface deepArrays .null).result = .ok i ∧
    (assemble (.record i) (.bool false)).result = .ok d ∧
    (.typeTooDeep "uint8" ∈ (assemble (.record i) (.bool false)).notices ↔ ∃ p ∈ i.parameters, ∃ arrays tuples,
      arrays + tuples = maxDepth + 1 ∧
        Schema.LiesBelow "uint8" arrays tuples (Schema.Member.read p).type (Schema.Member.read p).components) ∧
    ∀ p ∈ i.parameters, ∀ arrays tuples,
      Schema.LiesBelow "uint8" arrays tuples (Schema.Member.read p).type (Schema.Member.read p).components →
        tuples ≤ maxDepth := by
  obtain ⟨i, d, hi, hd⟩ := exists_assembled deepArrays_wellFormed .null
  exact ⟨i, d, hi, hd, typeTooDeep_of_read hi hd "uint8"⟩

/-- A valid document that is read and assembled may lose what lies too deep. -/
theorem valid_typeTooDeep : ¬∀ (raw contractName : Value) (i : Interface) (d : Document),
    (validate raw).isValid = true → (readInterface raw contractName).result = .ok i →
      (assemble (.record i) (.bool false)).result = .ok d →
        ∀ t, .typeTooDeep t ∉ (assemble (.record i) (.bool false)).notices := by
  intro h
  obtain ⟨i, d, hi, hd⟩ := exists_assembled deepArrays_wellFormed .null
  have hvalid := isValid_of_wellFormed deepArrays_wellFormed
  exact h deepArrays .null i d hvalid hi hd "uint8" ((typeTooDeep_assemble hi hd).2 (liesAt_deepArrays hi))

end ContractApi
