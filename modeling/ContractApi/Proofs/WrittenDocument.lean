import ContractApi.Proofs.Convertible
import ContractApi.Proofs.LegibleDocument
import ContractApi.Proofs.ReadPairs
/-!
# No parameter is lost in text

The text of a document names properties by texts only, so that two names that are told apart as values may be the same
there (`merged_in_text`).

- The records of a document without halves of surrogate pairs in a row have none either
  (`unsplit_of_readParameters`, `unsplit_function` and those after it), so that their description is legible.
- Where all names of parameters are texts, the description is read back from its text as it was, and no parameter is
  lost (`parameters_kept_in_text`). This holds of every document that a file holds (`parameters_kept_of_bytes`).
-/

namespace ContractApi

open Abi OpenApi Json

namespace Abi

/-! ## Records -/

/-- The entries of an object that is listed are those of an item. -/
theorem unsplit_of_listed {v : Value} {elements : List Value} (hu : v.Unsplit) (h : listed v = .ok elements)
    {entries : List (Key × Value)} (hmem : .object entries ∈ elements) : Value.EntriesUnsplit entries := by
  unfold listed at h
  split at h
  · split at h
    · rename_i found he
      cases h
      cases v with
      | list items =>
        cases he
        exact Value.itemsUnsplit_iff.1 hu _ hmem
      | object es =>
        cases he
        obtain ⟨e, _, heq⟩ := List.mem_map.1 hmem
        cases hk : e.1 <;> rw [hk] at heq <;> cases heq
      | text t =>
        cases he
        obtain ⟨c, _, heq⟩ := List.mem_map.1 hmem
        cases heq
      | _ => cases he
    · cases h
  · cases h
    cases hmem

theorem unsplit_lookup? {name : Text} {entries : List (Key × Value)} (h : Value.EntriesUnsplit entries) {v : Value}
    (hv : Value.lookup? name entries = some v) : v.Unsplit :=
  Value.entriesUnsplit_iff.1 h _ (Table.mem_of_get? hv)

/-- What is read of a parameter list was there. -/
theorem unsplit_of_readParameters : ∀ {levels : Nat} {v : Value} {ps : List Parameter}, v.Unsplit →
    readParametersWithin levels v = .ok ps → ∀ p ∈ ps, p.Unsplit
  | 0, _, _, _, h => by cases h
  | levels + 1, v, ps, hu, h => by
    rw [readParametersWithin_succ] at h
    obtain ⟨elements, hl, h⟩ := except_bind_eq_ok.1 h
    intro p hp
    obtain ⟨q, hq, hread⟩ := exists_of_mem_mapM h p hp
    obtain ⟨entries, type, components, rfl, htype, hc, rfl⟩ := readParameter_eq_ok hread
    have hentries := unsplit_of_listed hu (liftFault_eq_ok.1 hl) hq
    refine ⟨(Value.unsplit_field "name" hentries).orElse (Text.unsplit_ofString ""), unsplit_lookup? hentries htype, ?_⟩
    by_cases hv : Value.field "components" entries = .null
    · rw [hv] at hc
      cases hc
      trivial
    · rw [readMembers_of_ne_null levels hv] at hc
      obtain ⟨members, hmembers, rfl⟩ := except_map_eq_ok.1 hc
      exact Parameters.allUnsplit_iff.2 (unsplit_of_readParameters (Value.unsplit_field "components" hentries) hmembers)

theorem unsplit_parameters {name : Text} {entries : List (Key × Value)} {parameters : Parameters}
    (hu : Value.EntriesUnsplit entries)
    (h : ∃ ps, readParameters (Value.field name entries) = .ok ps ∧ parameters = .list ps) : parameters.Unsplit := by
  obtain ⟨ps, hps, rfl⟩ := h
  exact Parameters.allUnsplit_iff.2 (unsplit_of_readParameters (Value.unsplit_field name hu) hps)

theorem unsplit_requiredEntry {name : Text} {entries : List (Key × Value)} (hu : Value.EntriesUnsplit entries)
    {v : Value} (h : requiredEntry name entries = .ok v) : v.Unsplit := by
  unfold requiredEntry at h
  split at h
  · rename_i found hv
    cases h
    exact unsplit_lookup? hu hv
  · cases h

theorem stateMutability_of_readFunction {item : Value} {entries : List (Key × Value)} {f : FunctionRecord}
    (h : readFunction item entries = .ok f) :
    f.stateMutability = (Value.field "stateMutability" entries).orElse (.text Mutability.nonpayable.word) := by
  obtain ⟨_, _, h⟩ := except_bind_eq_ok.1 h
  obtain ⟨_, _, h⟩ := except_bind_eq_ok.1 h
  obtain ⟨_, _, h⟩ := except_bind_eq_ok.1 h
  obtain ⟨_, _, h⟩ := except_bind_eq_ok.1 h
  obtain ⟨_, _, h⟩ := except_bind_eq_ok.1 h
  obtain ⟨_, _, h⟩ := except_bind_eq_ok.1 h
  cases h
  rfl

section Items

variable {entries : List (Key × Value)} (hu : Value.EntriesUnsplit entries)

include hu

theorem unsplit_function {f : FunctionRecord} (h : readFunction (.object entries) entries = .ok f) : f.Unsplit := by
  obtain ⟨hname, hinputs, houtputs, _⟩ := readFunction_eq_ok h
  refine ⟨unsplit_requiredEntry hu hname, ?_, unsplit_parameters hu hinputs, unsplit_parameters hu houtputs⟩
  rw [stateMutability_of_readFunction h]
  exact (Value.unsplit_field "stateMutability" hu).orElse (Text.unsplit_ofString _)

theorem unsplit_event {e : EventRecord} (h : readEvent (.object entries) entries = .ok e) : e.Unsplit := by
  obtain ⟨hname, hinputs, _⟩ := readEvent_eq_ok h
  exact ⟨unsplit_requiredEntry hu hname, unsplit_parameters hu hinputs⟩

theorem unsplit_error {r : ErrorRecord} (h : readError (.object entries) entries = .ok r) : r.Unsplit := by
  obtain ⟨hname, hinputs, _⟩ := readError_eq_ok h
  refine ⟨?_, unsplit_parameters hu hinputs⟩
  rw [hname]
  exact (Value.unsplit_field "name" hu).orElse (Text.unsplit_ofString "")

end Items

theorem unsplit_itemList? {raw : Value} (hu : raw.Unsplit) {items : List Value} (h : itemList? raw = some items) :
    ∀ item ∈ items, item.Unsplit := by
  cases raw with
  | list l =>
    cases h
    exact Value.itemsUnsplit_iff.1 hu
  | object entries =>
    have hf := Value.unsplit_field "abi" hu
    simp only [itemList?] at h
    split at h
    · rename_i l hl
      cases h
      rw [hl] at hf
      exact Value.itemsUnsplit_iff.1 hf
    · cases h
  | _ => cases h

theorem unsplit_contractNameOf {raw contractName : Value} (hu : raw.Unsplit) (hn : contractName.Unsplit) :
    (contractNameOf raw contractName).Unsplit := by
  refine hn.orElse (Value.Unsplit.orElse ?_ (Text.unsplit_ofString "SmartContract"))
  cases raw with
  | object entries => exact Value.unsplit_field "contractName" hu
  | _ => trivial

end Abi

/-! ## Descriptions -/

/-- A conversion succeeds with the description of the interface that was read. -/
theorem exists_described {raw contractName strict d : Value}
    (h : (convert raw contractName strict).result = .ok (.success d)) : ∃ i document,
      (readInterface raw contractName).result = .ok i ∧ (assemble (.record i) strict).result = .ok document ∧
        d = document.toValue := by
  by_cases hr : IsRejected raw
  · cases (convert_of_rejected hr contractName strict).symm.trans h
  · cases hd : (description raw contractName strict).result with
    | error failure => cases (convert_of_failed hr hd).symm.trans h
    | ok document =>
      obtain ⟨i, hi, ha⟩ := description_eq_ok.1 hd
      cases (convert_of_described hr hd).symm.trans h
      exact ⟨i, document, hi, ha, rfl⟩

/-- Whether the names of all parameters of the records, however deep they lie, are texts. -/
structure NamedByTexts (fs : List FunctionRecord) (es : List EventRecord) (rs : List ErrorRecord) : Prop where
  functions : ∀ f ∈ fs, f.inputs.IsList ∧ f.outputs.IsList
  events : ∀ e ∈ es, e.inputs.IsList
  errors : ∀ r ∈ rs, r.inputs.IsList

section Success

variable {raw contractName : Value} {fs : List FunctionRecord} {es : List EventRecord} {rs : List ErrorRecord}
  (hread : (readInterface raw contractName).result = .ok (.ofRecords (contractNameOf raw contractName) fs es rs))

include hread

/-- Records hold no halves of surrogate pairs in a row if the document does not. -/
theorem unsplit_records (hu : raw.Unsplit) : (∀ f ∈ fs, f.Unsplit) ∧ (∀ e ∈ es, e.Unsplit) ∧ ∀ r ∈ rs, r.Unsplit := by
  obtain ⟨items, fs', es', rs', hl, heq, hf, he, hr⟩ := readInterface_records hread
  obtain ⟨rfl, rfl, rfl⟩ := ofRecords_inj heq
  have hitems := unsplit_itemList? hu hl
  refine ⟨fun f hmem => ?_, fun e hmem => ?_, fun r hmem => ?_⟩
  · obtain ⟨entries, hitem, _, hread⟩ := hf f hmem
    exact unsplit_function (hitems _ hitem) hread
  · obtain ⟨entries, hitem, _, hread⟩ := he e hmem
    exact unsplit_event (hitems _ hitem) hread
  · obtain ⟨entries, hitem, _, hread⟩ := hr r hmem
    exact unsplit_error (hitems _ hitem) hread

/-- If all names of parameters are texts and no text of the records is split, the description is legible and keeps all
parameters. -/
theorem legible_success {strict d : Value} (h : (convert raw contractName strict).result = .ok (.success d))
    (hnames : NamedByTexts fs es rs) (hn : (contractNameOf raw contractName).Unsplit) (hf : ∀ f ∈ fs, f.Unsplit)
    (he : ∀ e ∈ es, e.Unsplit) (hr : ∀ r ∈ rs, r.Unsplit) : d.Legible documentLevels ∧ KeepsParameters fs es rs d := by
  obtain ⟨i, document, hi, ha, rfl⟩ := exists_described h
  obtain ⟨_, fs', es', rs', _, heq, hfunctions, _, _⟩ := readInterface_records hi
  cases hi.symm.trans hread
  obtain ⟨rfl, rfl, rfl⟩ := ofRecords_inj heq
  have hbuilt := (assemble_eq_ok.1 ha).1
  obtain ⟨parts⟩ := exists_parts_of_built hbuilt
  cases (parts.buildDocument_eq _).symm.trans hbuilt
  refine ⟨parts.legible_document (fun f hmem => ?_) (fun e hmem => ⟨hnames.events e hmem, he e hmem⟩)
    (fun r hmem => ⟨hnames.errors r hmem, hr r hmem⟩) hn,
    parts.keepsParameters hnames.functions hnames.events hnames.errors _⟩
  obtain ⟨entries, _, _, hread⟩ := hfunctions f hmem
  obtain ⟨hinputs, houtputs⟩ := hnames.functions f hmem
  exact ⟨httpMethod_of_readFunction hread, hinputs, houtputs, hf f hmem⟩

/-- So it is if no text of the document is split. -/
theorem legible_of_unsplit {strict d : Value} (hu : raw.Unsplit) (hn : contractName.Unsplit)
    (hnames : NamedByTexts fs es rs) (h : (convert raw contractName strict).result = .ok (.success d)) :
    d.Legible documentLevels ∧ KeepsParameters fs es rs d := by
  obtain ⟨hf, he, hr⟩ := unsplit_records hread hu
  exact legible_success hread h hnames (unsplit_contractNameOf hu hn) hf he hr

/-- If the names of all parameters that were read are texts, and no text holds the halves of a surrogate pair in a row,
the description is read back from its JSON text as it was, whatever number of spaces it is indented by, and no parameter
is lost in it. This takes room for no more levels than any description has. -/
theorem parameters_kept_in_text {strict d : Value} (hu : raw.Unsplit) (hn : contractName.Unsplit)
    (hnames : NamedByTexts fs es rs) (h : (convert raw contractName strict).result = .ok (.success d)) (indent : Value)
    (hindent : IsSpacing indent) : ∃ text, (toJson (.value d) indent).result = .ok text ∧
      (∀ levels, documentLevels ≤ levels → readWithin levels text = .ok d) ∧ KeepsParameters fs es rs d := by
  obtain ⟨hlegible, hkeeps⟩ := legible_of_unsplit hread hu hn hnames h
  obtain ⟨text, ht, hback⟩ := readBack_toJson hlegible hindent
  exact ⟨text, ht, hback, hkeeps⟩

end Success

theorem parameters_kept_in_text_shop : ∃ fs es rs d text,
    (readInterface shop .null).result = .ok (.ofRecords (contractNameOf shop .null) fs es rs) ∧
      (convert shop .null (.bool false)).result = .ok (.success d) ∧
        (toJson (.value d) (.int 2)).result = .ok text ∧
          (∀ levels, documentLevels ≤ levels → readWithin levels text = .ok d) ∧ KeepsParameters fs es rs d := by
  obtain ⟨fs, es, rs, hi, hf, he, hr⟩ := exists_read shop_wellFormed .null
  obtain ⟨parts⟩ := exists_parts hf he hr
  have ha := assemble_eq_ok.2 ⟨parts.buildDocument_eq (contractNameOf shop .null), fun h : (Value.bool false).isTruthy =
    true => nomatch h⟩
  have hv : ¬IsRejected shop := by
    rw [isRejected_iff, isValid_of_wellFormed shop_wellFormed]
    exact Bool.noConfusion
  have hd := convert_of_described hv (description_eq_ok.2 ⟨_, hi, ha⟩)
  have hunsplit : shop.Unsplit := by
    simp [shop, Value.Unsplit, Value.ItemsUnsplit, Value.EntriesUnsplit, Text.unsplit_ofString]
  have hnames : NamedByTexts fs es rs :=
    ⟨fun f h => ⟨(hf f h).inputs, (hf f h).outputs⟩, fun e h => (he e h).inputs, fun r h => (hr r h).inputs⟩
  have hnull : Value.null.Unsplit := trivial
  obtain ⟨text, ht, hback, hkeeps⟩ := parameters_kept_in_text hi hunsplit hnull hnames hd (.int 2)
    (.inr ⟨2, rfl, by decide, by decide⟩)
  exact ⟨fs, es, rs, _, text, hi, hd, ht, hback, hkeeps⟩

open CommandLine in
/-- A document that a file holds needs no such condition: whatever the bytes are, no parameter is lost in the text of its
description. -/
theorem parameters_kept_of_bytes {bytes : List UInt8} {levels : Nat} {raw contractName strict d : Value}
    {fs : List FunctionRecord} {es : List EventRecord} {rs : List ErrorRecord}
    (hb : (textOfFile bytes).bind (parseDocument levels) = .ok raw) (hn : contractName.Unsplit)
    (hread : (readInterface raw contractName).result = .ok (.ofRecords (contractNameOf raw contractName) fs es rs))
    (hnames : NamedByTexts fs es rs) (h : (convert raw contractName strict).result = .ok (.success d)) (indent : Value)
    (hindent : IsSpacing indent) : ∃ text, (toJson (.value d) indent).result = .ok text ∧
      (∀ more, documentLevels ≤ more → readWithin more text = .ok d) ∧ KeepsParameters fs es rs d := by
  obtain ⟨hlegible, hkeeps⟩ := legible_of_unsplit hread (unsplit_of_bytes hb) hn hnames h
  obtain ⟨text, ht, hback⟩ := readBack_toJson hlegible hindent
  exact ⟨text, ht, hback, hkeeps⟩

/-! ## Names that are the same in text -/

/-- The names of the properties that a schema has in the description of a document, as read from its text. -/
def propertiesRead (raw indent : Value) (schema : Text) : Option (List Key) :=
  match (convert raw .null (.bool false)).result with
  | .ok (.success d) =>
    match (toJson (.value d) indent).result.map (readWithin documentLevels) with
    | .ok (.ok v) =>
      match v.at? ["components", "schemas", schema, "properties"] with
      | some (.object properties) => some (properties.map Prod.fst)
      | _ => none
    | _ => none
  | _ => none

/-- Two inputs of a function, one named by a number and the other by its numeral. -/
def alike : List Value :=
  [.object [("name", .int 5), ("type", "bool")], .object [("name", "5"), ("type", "bool")]]

/-- A number and its numeral are told apart as values, but not in text: one of two parameters is lost. -/
theorem merged_in_text :
    let raw := Value.list [.object [("type", "function"), ("name", "f"), ("inputs", .list alike)]]
    alike.length = 2 ∧ propertiesRead raw .null "fRequest" = some [.text "5"] := by
  decide +kernel

end ContractApi
