import ContractApi.Proofs.Canonical
import ContractApi.Proofs.Convertible
/-!
# What can fail after reading

Validation and reading let names be any values. What follows needs more of them.

- The interface of a document that was read is assembled exactly if it is `Describable`: if the names of its functions
  are texts, and the names of parameters that become fields can be looked up (`succeeds_assemble`).
- The selectors of such a document exist (`returns_selectors`), and so do the prototypes of its events if their inputs
  have texts for names (`returns_eventPrototypes`).
- Validation does not make sure of this (`not_assembled_numbered`).
-/

namespace ContractApi

open Abi OpenApi

namespace Abi

/-! ## Interfaces -/

/-- Whether all that is in the list are records with a property. -/
def Slots.All {α : Type} (p : α → Prop) : Slots α → Prop
  | .list slots => ∀ s ∈ slots, ∃ a, s = .record a ∧ p a
  | .stray _ => False

theorem Slots.all_records {α : Type} {p : α → Prop} {l : List α} :
    (Slots.list (l.map .record)).All p ↔ ∀ a ∈ l, p a := by
  rw [Slots.All, List.forall_mem_map]
  refine forall_congr' fun a => forall_congr' fun _ => ?_
  constructor
  · rintro ⟨b, h, hb⟩
    cases h
    exact hb
  · exact fun h => ⟨a, rfl, h⟩

/-- Whether all functions, events and errors of the interface are describable. -/
structure Interface.Describable (i : Interface) : Prop where
  functions : i.functions.All FunctionRecord.Describable
  events : i.events.All fun e => e.inputs.Describable
  errors : i.errors.All fun e => e.inputs.Describable

/-- Whether there is a list, the parameters of which have texts for names. -/
def Parameters.Named (parameters : Parameters) : Prop := ∃ ps, parameters = .list ps ∧
  ∀ p ∈ ps, (Schema.Member.read p).name.IsText

theorem describable_of_present {parameters : Parameters} (hl : ∃ ps, parameters = .list ps) :
    (parameters.isPresent = true → parameters.Describable) ↔ parameters.Describable := by
  refine ⟨fun h => ?_, fun h _ => h⟩
  obtain ⟨ps, rfl⟩ := hl
  cases ps with
  | nil => exact ⟨[], rfl, fun _ h => absurd h List.not_mem_nil, fun _ h => absurd h List.not_mem_nil⟩
  | cons p ps => exact h rfl

end Abi

namespace OpenApi

/-! ## Assembling -/

/-- What a function enters can be made exactly if the function is describable. -/
theorem succeeds_functionEntries {f : FunctionRecord} (hm : f.httpMethod.IsText) (hi : ∃ ps, f.inputs = .list ps)
    (ho : ∃ ps, f.outputs = .list ps) : (∀ o ∈ functionEntries (.record f), o.Succeeds) ↔ f.Describable := by
  rw [functionEntries_eq hm, List.forall_mem_cons, List.forall_mem_append, succeeds_schemaEntryIf,
    succeeds_schemaEntryIf, succeeds_inputSchema hi, succeeds_outputSchema ho, describable_of_present hi,
    describable_of_present ho]
  have hoperation : (operationEntry f).Succeeds ↔ (Operation.ofFunction (.record f)).Succeeds :=
    Outcome.succeeds_bind_pure
  rw [hoperation]
  constructor
  · rintro ⟨hname, hinputs, houtputs⟩
    exact ⟨(succeeds_operation hinputs).1 hname, hinputs, houtputs⟩
  · rintro ⟨hname, hinputs, houtputs⟩
    exact ⟨(succeeds_operation hinputs).2 hname, hinputs, houtputs⟩

theorem succeeds_eventEntries {e : EventRecord} (hi : ∃ ps, e.inputs = .list ps) :
    (∀ o ∈ eventEntries (.record e), o.Succeeds) ↔ e.inputs.Describable := by
  rw [eventEntries, List.forall_mem_singleton, ← succeeds_eventSchema hi]
  exact Outcome.succeeds_bind_pure

theorem succeeds_errorEntries {r : ErrorRecord} (hi : ∃ ps, r.inputs = .list ps) :
    (∀ o ∈ errorEntries (.record r), o.Succeeds) ↔ r.inputs.Describable := by
  rw [errorEntries, List.forall_mem_singleton, ← succeeds_errorSchema hi]
  exact Outcome.succeeds_bind_pure

/-- An interface that was read is assembled exactly if it is describable. -/
theorem succeeds_assemble {raw contractName : Value} {i : Interface}
    (h : (readInterface raw contractName).result = .ok i) :
    (assemble (.record i) (.bool false)).Succeeds ↔ i.Describable := by
  obtain ⟨items, fs, es, rs, _, rfl, hf, he, hr⟩ := readInterface_records h
  have hfunctions : ∀ f ∈ fs, (∀ o ∈ functionEntries (.record f), o.Succeeds) ↔ f.Describable := by
    intro f hmem
    obtain ⟨entries, _, _, hread⟩ := hf f hmem
    obtain ⟨_, ⟨is, _, hi⟩, ⟨os, _, ho⟩, _, _, method, _, hm⟩ := readFunction_eq_ok hread
    exact succeeds_functionEntries ⟨method, hm⟩ ⟨is, hi⟩ ⟨os, ho⟩
  have hevents : ∀ e ∈ es, (∀ o ∈ eventEntries (.record e), o.Succeeds) ↔ e.inputs.Describable := by
    intro e hmem
    obtain ⟨entries, _, _, hread⟩ := he e hmem
    obtain ⟨_, ⟨is, _, hi⟩, _⟩ := readEvent_eq_ok hread
    exact succeeds_eventEntries ⟨is, hi⟩
  have herrors : ∀ r ∈ rs, (∀ o ∈ errorEntries (.record r), o.Succeeds) ↔ r.inputs.Describable := by
    intro r hmem
    obtain ⟨entries, _, _, hread⟩ := hr r hmem
    obtain ⟨_, ⟨is, _, hi⟩, _⟩ := readError_eq_ok hread
    exact succeeds_errorEntries ⟨is, hi⟩
  have hassemble : (assemble (.record (.ofRecords (contractNameOf raw contractName) fs es rs)) (.bool false)).Succeeds ↔
      ∀ o ∈ documentEntries (.ofRecords (contractNameOf raw contractName) fs es rs), o.Succeeds := by
    constructor
    · rintro ⟨d, hd⟩
      exact (buildDocument_eq_ok.1 (assemble_eq_ok.1 hd).1).1
    · intro ho
      exact ⟨_, assemble_eq_ok.2 ⟨buildDocument_eq_ok.2 ⟨ho, rfl⟩, fun hs => by cases hs⟩⟩
  rw [hassemble, documentEntries_ofRecords]
  simp only [List.forall_mem_append, List.forall_mem_flatMap]
  rw [forall₂_congr hfunctions, forall₂_congr hevents, forall₂_congr herrors]
  constructor
  · rintro ⟨⟨hf, he⟩, hr⟩
    exact ⟨Slots.all_records.2 hf, Slots.all_records.2 he, Slots.all_records.2 hr⟩
  · rintro ⟨hf, he, hr⟩
    exact ⟨⟨Slots.all_records.1 hf, Slots.all_records.1 he⟩, Slots.all_records.1 hr⟩

end OpenApi

namespace Abi

/-! ## Selectors and prototypes -/

variable {items : List Value} {records : List ItemRecord}

/-- An item of a kind is an object, and there is a record of it. -/
theorem exists_read_of_kind {kind : ItemKind} (h : (readItems 0 items).result = .ok records)
    {item : Value} (hmem : item ∈ items.filter (ItemKind.of · = kind)) : ∃ entries record index,
      item = .object entries ∧ ItemKind.of (.object entries) = kind ∧ record ∈ records ∧
        readItem (.object entries) index = .ok record := by
  obtain ⟨hitem, hkind⟩ := List.mem_filter.1 hmem
  obtain ⟨index, hindex⟩ := List.mem_iff_getElem?.1 hitem
  have he := List.mk_mem_zipIdx_iff_getElem?.2 hindex
  have hread := exists_of_forall₂ (List.Forall₂.flip (except_mapM_eq_ok.1 (readItems_eq_ok.1 h)))
  obtain ⟨record, hrecord, hr⟩ := hread _ he
  obtain ⟨entries, rfl, _⟩ := readItem_eq_ok hr
  exact ⟨entries, record, index, rfl, of_decide_eq_true hkind, hrecord, hr⟩

/-- The items of a document that was read have selectors. -/
theorem returns_selectors (h : (readItems 0 items).result = .ok records) : Returns (Selectors.of (.list items)) := by
  have hf : ∀ item ∈ items.filter (ItemKind.of · = .function), Returns (selector item) := by
    intro item hmem
    obtain ⟨entries, record, index, rfl, hk, _, hr⟩ := exists_read_of_kind h hmem
    rw [readItem, hk] at hr
    obtain ⟨f, hf, _⟩ := except_map_eq_ok.1 hr
    obtain ⟨_, _, _, _, ⟨t, ht, _⟩, _⟩ := readFunction_eq_ok hf
    exact ⟨t, ht⟩
  have he : ∀ item ∈ items.filter (ItemKind.of · = .error), Returns (selector item) := by
    intro item hmem
    obtain ⟨entries, record, index, rfl, hk, _, hr⟩ := exists_read_of_kind h hmem
    rw [readItem, hk] at hr
    obtain ⟨e, he, _⟩ := except_map_eq_ok.1 hr
    obtain ⟨_, _, _, t, ht, _⟩ := readError_eq_ok he
    exact ⟨t, ht⟩
  have hv : ∀ item ∈ items.filter (ItemKind.of · = .event), Returns (topic item) := by
    intro item hmem
    obtain ⟨entries, record, index, rfl, hk, _, hr⟩ := exists_read_of_kind h hmem
    rw [readItem, hk] at hr
    obtain ⟨e, he, _⟩ := except_map_eq_ok.1 hr
    obtain ⟨_, _, _, t, ht, _⟩ := readEvent_eq_ok he
    exact ⟨t, ht⟩
  obtain ⟨fs, hfs⟩ := returns_hashTable hf
  obtain ⟨es, hes⟩ := returns_hashTable he
  obtain ⟨vs, hvs⟩ := returns_hashTable hv
  exact ⟨⟨fs, es, vs⟩, selectors_eq_ok.2 ⟨hfs, hes, hvs⟩⟩

/-- An input of an event has a prototype if its type and its name are texts, as far as there are any. -/
theorem returns_inputPrototype {entries : List (Key × Value)} (ht : ((Value.lookup? "type" entries).getD "").IsText)
    (hn : ((Value.field "name" entries).orElse "").IsText) : Returns (inputPrototype (.object entries)) := by
  change Returns (joinTexts " " _)
  refine returns_joinTexts.2 fun v hv => ?_
  have hv := List.mem_of_mem_filter hv
  simp only [List.mem_cons, List.not_mem_nil, or_false] at hv
  rcases hv with rfl | rfl | rfl
  · exact ht
  · split <;> exact ⟨_, rfl⟩
  · exact hn

/-- An event that was read has a prototype if its inputs have texts for names. -/
theorem returns_prototype {entries : List (Key × Value)} {e : EventRecord}
    (h : readEvent (.object entries) entries = .ok e) (hn : e.inputs.Named) :
    Returns (prototype (.object entries)) := by
  obtain ⟨_, ⟨ps, hps, hinputs⟩, ⟨t, ht, _⟩, _⟩ := readEvent_eq_ok h
  obtain ⟨parameters, hl, htypes⟩ := returns_plainSignature.1 ⟨t, ht⟩
  obtain ⟨ps', heq, hnames⟩ := hn
  cases hinputs.symm.trans heq
  rw [readParameters, readParametersWithin_succ, hl] at hps
  have hread := exists_of_forall₂ (List.Forall₂.flip (except_mapM_eq_ok.1 hps))
  change Returns (listed (Value.field "inputs" entries) >>= fun inputs => _)
  refine returns_bind.2 ⟨parameters, hl, returns_bind_pure.2 (returns_mapM.2 fun q hq => ?_)⟩
  obtain ⟨es, rfl, htype⟩ := htypes q hq
  obtain ⟨p, hp, hpq⟩ := hread _ hq
  obtain ⟨_, type, components, he, _, _, rfl⟩ := readParameter_eq_ok hpq
  cases he
  exact returns_inputPrototype htype (hnames _ hp)

/-- The events of a document that was read have prototypes if their inputs have texts for names. -/
theorem returns_eventPrototypes (h : (readItems 0 items).result = .ok records)
    (hn : ∀ e, .event e ∈ records → e.inputs.Named) : Returns (eventPrototypes (.list items)) := by
  rw [eventPrototypes, itemsOfKind_list]
  refine returns_mapM.2 fun item hmem => ?_
  obtain ⟨entries, record, index, rfl, hk, hrecord, hr⟩ := exists_read_of_kind h hmem
  rw [readItem, hk] at hr
  obtain ⟨e, he, rfl⟩ := except_map_eq_ok.1 hr
  exact returns_prototype he (hn e hrecord)

end Abi

/-! ## Conversions -/

/-- What follows the reading of a document: its interface is assembled exactly if it is describable, and fails as one
that cannot be assembled otherwise. The selectors exist, and so do the prototypes of events if all their inputs have
texts for names. -/
theorem after_reading {c : Conversion} {i : Interface} (h : (readInterface c.raw c.contractName).result = .ok i) :
    ((assemble (.record i) (.bool false)).Succeeds ↔ i.Describable) ∧
      (∀ failure, (assemble (.record i) (.bool false)).result = .error failure → failure.stage = .assembling) ∧
      c.selectors.Succeeds ∧ (i.events.All (fun e => e.inputs.Named) → c.eventDefinitions.Succeeds) := by
  obtain ⟨items, records, hl, hr, hi⟩ := readInterface_eq_ok.1 h
  have hitems : c.items = .list items := by
    rw [Conversion.items, hl]
    rfl
  refine ⟨succeeds_assemble h, fun failure hf => stage_assemble hf, ?_, fun hn => ?_⟩
  · rw [Conversion.selectors, hitems]
    exact Outcome.succeeds_ofFault.2 (returns_selectors hr)
  · rw [Conversion.eventDefinitions, hitems]
    refine Outcome.succeeds_ofFault.2 (returns_eventPrototypes hr fun e he => ?_)
    rw [hi, Interface.ofItems_eq] at hn
    exact Slots.all_records.1 hn e (List.mem_filterMap.2 ⟨_, he, rfl⟩)

theorem named_of_wellFormed {parameters : Parameters} (h : parameters.IsList) : parameters.Named := by
  obtain ⟨ps, rfl, hps⟩ := h
  refine ⟨ps, rfl, fun p hmem => ?_⟩
  obtain ⟨_, _, _, _, _, rfl, hname, _⟩ := (hps p hmem).exists_record
  exact hname

/-- Where all names are texts, nothing fails. -/
theorem after_reading_shop : ∃ i, (readInterface shop .null).result = .ok i ∧
    (assemble (.record i) (.bool false)).Succeeds ∧
      (Conversion.eventDefinitions { raw := shop, contractName := .null, strict := .bool false }).Succeeds := by
  obtain ⟨fs, es, rs, hi, hf, he, hr⟩ := exists_read shop_wellFormed .null
  obtain ⟨hassemble, _, _, hevents⟩ :=
    after_reading (c := { raw := shop, contractName := .null, strict := .bool false }) hi
  refine ⟨_, hi, hassemble.2 ⟨?_, ?_, ?_⟩, hevents ?_⟩
  · exact Slots.all_records.2 fun f hmem => (hf f hmem).describable
  · exact Slots.all_records.2 fun e hmem => (he e hmem).inputs.describable
  · exact Slots.all_records.2 fun r hmem => (hr r hmem).inputs.describable
  · exact Slots.all_records.2 fun e hmem => named_of_wellFormed (he e hmem).inputs

/-- A function whose name is a number. -/
def numbered : Value := .list [.object [("type", "function"), ("name", .int 5)]]

theorem numbered_plain : numbered.Plain := by
  have hs := Text.plain_ofString
  simp [numbered, Value.Plain, Value.ItemsPlain, Value.EntriesPlain, Key.display, hs]

/-- Validation and reading accept numbers for names, but a function with such a name cannot be described. -/
theorem not_assembled_numbered : ¬∀ (c : Conversion) (i : Interface), c.raw.Plain → (validate c.raw).isValid = true →
    (readInterface c.raw c.contractName).result = .ok i → (assemble (.record i) (.bool false)).Succeeds ∧
      c.selectors.Succeeds ∧ c.eventDefinitions.Succeeds := by
  intro h
  have hread : (readInterface numbered .null).Succeeds := by
    refine (succeeds_readInterface rfl).2 (List.forall_mem_singleton.2 ?_)
    have hplain := Value.itemsPlain_iff.1 numbered_plain _ List.mem_cons_self
    obtain ⟨entries, heq, hiff⟩ := returns_readItem hplain (rfl : itemProblems _ 0 = [])
    cases heq
    exact hiff.2 ⟨trivial, trivial⟩
  obtain ⟨i, hi⟩ := hread
  have hc := (h { raw := numbered, contractName := .null, strict := .bool false } i numbered_plain rfl hi).1
  obtain ⟨hfunctions, _, _⟩ := (succeeds_assemble hi).1 hc
  obtain ⟨items, records, hl, hr, rfl⟩ := readInterface_eq_ok.1 hi
  cases hl
  obtain _ | ⟨hrecord, _⟩ := except_mapM_eq_ok.1 (readItems_eq_ok.1 hr)
  have hk : ItemKind.of (.object [("type", "function"), ("name", .int 5)]) = .function := by rfl
  simp only [readItem, hk] at hrecord
  obtain ⟨f, hf, rfl⟩ := except_map_eq_ok.1 hrecord
  have hname : Except.ok (Value.int 5) = .ok f.name := (readFunction_eq_ok hf).1
  rw [Interface.ofItems_eq] at hfunctions
  obtain ⟨t, ht⟩ := (Slots.all_records.1 hfunctions f List.mem_cons_self).name
  rw [ht] at hname
  cases hname

end ContractApi
