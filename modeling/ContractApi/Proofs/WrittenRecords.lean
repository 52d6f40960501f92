import ContractApi.Proofs.AfterReading
import ContractApi.Proofs.WrittenAscii
import ContractApi.Proofs.WrittenDocument
/-!
# Records are read back

- A `Proper` interface has texts and truth values in its fields, and parameters of any depth. The object with all fields
  is read back from its text in as many levels as it takes (`legibleDeep_interface`), and it is that of no other interface
  (`Interface.toValue_inj`).
- `written_invertible` says what is read back of documents and of interfaces, and for which indentations there is a text
  at all.
-/

namespace ContractApi

open Abi OpenApi Json

/-! ## Values of any depth -/

/-- Whether the value can be read back from its text in as many levels as it takes. -/
def Value.LegibleDeep (v : Value) : Prop := ∃ levels, v.Legible levels

/-- Whether the value is a truth value, or a text that holds no halves of a surrogate pair in a row. -/
def Value.IsSimple : Value → Prop
  | .text t => t.Unsplit
  | .bool _ => True
  | _ => False

namespace Value

theorem IsSimple.legibleDeep {v : Value} (h : v.IsSimple) : v.LegibleDeep := by
  cases v with
  | bool b => exact ⟨0, trivial⟩
  | text t => exact ⟨0, h⟩
  | null | int _ | float _ | list _ | object _ => exact h.elim

/-- There are as many levels as it takes for all values of a list. -/
theorem exists_levels {values : List Value} (h : ∀ v ∈ values, v.LegibleDeep) :
    ∃ levels, ∀ v ∈ values, v.Legible levels := by
  induction values with
  | nil => exact ⟨0, List.forall_mem_nil _⟩
  | cons v rest ih =>
    obtain ⟨⟨levels, hv⟩, hrest⟩ := List.forall_mem_cons.1 h
    obtain ⟨levels', hrest⟩ := ih hrest
    refine ⟨max levels levels', List.forall_mem_cons.2 ⟨hv.mono (Nat.le_max_left _ _), fun u hu => ?_⟩⟩
    exact (hrest u hu).mono (Nat.le_max_right _ _)

theorem legibleDeep_list {items : List Value} (h : ∀ v ∈ items, v.LegibleDeep) : (Value.list items).LegibleDeep := by
  obtain ⟨levels, hl⟩ := exists_levels h
  exact ⟨levels + 1, legible_list.2 hl⟩

theorem key_ofString_injective : Function.Injective fun s : String => (s : Key) := by
  intro s s' h
  have hinj : Function.Injective CodePoint.ofChar := fun _ _ => ofChar_inj
  exact String.toList_inj.1 (hinj.list_map (Key.text.inj h))

/-- An object with fixed names is legible if its values are. -/
theorem legibleDeep_fields (fields : List (String × Value)) (hn : (fields.map Prod.fst).Nodup)
    (h : ∀ f ∈ fields, f.2.LegibleDeep) : (Value.object (fields.map fun f => ((f.1 : Key), f.2))).LegibleDeep := by
  obtain ⟨levels, hl⟩ : ∃ levels, ∀ v ∈ fields.map Prod.snd, v.Legible levels :=
    exists_levels (List.forall_mem_map.2 h)
  refine ⟨levels + 1, legible_object.2 ⟨?_, List.forall_mem_map.2 fun f hf => ?_⟩⟩
  · have hkeys := hn.map key_ofString_injective
    rwa [List.map_map] at hkeys ⊢
  · exact ⟨⟨_, rfl, Text.unsplit_ofString f.1⟩, hl _ (List.mem_map_of_mem hf)⟩

end Value

/-! ## Proper records -/

namespace Abi

mutual

/-- Whether all fields of the parameter, and of those below it, are texts and truth values. -/
def Parameter.Proper : Parameter → Prop
  | .record name type internalType indexed components =>
    name.IsSimple ∧ type.IsSimple ∧ internalType.IsSimple ∧ indexed.IsSimple ∧ components.Proper
  | .stray _ => False

/-- Whether there is no list of parameters, or one of such parameters. -/
def Parameters.Proper : Parameters → Prop
  | .absent => True
  | .list parameters => Parameters.AllProper parameters
  | .stray _ => False

def Parameters.AllProper : List Parameter → Prop
  | [] => True
  | p :: rest => p.Proper ∧ Parameters.AllProper rest

end

/-- Whether all fields of the function are texts, truth values and parameters with such fields. -/
structure FunctionRecord.Proper (f : FunctionRecord) : Prop where
  name : f.name.IsSimple
  stateMutability : f.stateMutability.IsSimple
  constant : f.constant.IsSimple
  payable : f.payable.IsSimple
  inputs : f.inputs.Proper
  outputs : f.outputs.Proper
  signature : f.signature.IsSimple
  selector : f.selector.IsSimple
  httpMethod : f.httpMethod.IsSimple

/-- Whether all fields of the event are texts, truth values and parameters with such fields. -/
structure EventRecord.Proper (e : EventRecord) : Prop where
  name : e.name.IsSimple
  anonymous : e.anonymous.IsSimple
  inputs : e.inputs.Proper
  signature : e.signature.IsSimple
  topic : e.topic.IsSimple

/-- Whether all fields of the error are texts and parameters with proper fields. -/
structure ErrorRecord.Proper (r : ErrorRecord) : Prop where
  name : r.name.IsSimple
  inputs : r.inputs.Proper
  signature : r.signature.IsSimple
  selector : r.selector.IsSimple

/-- Whether the interface is one of records whose fields are texts, truth values and parameters with such fields. -/
structure Interface.Proper (i : Interface) : Prop where
  contractName : i.contractName.IsSimple
  functions : i.functions.All FunctionRecord.Proper
  events : i.events.All EventRecord.Proper
  errors : i.errors.All ErrorRecord.Proper

mutual

theorem legibleDeep_parameter : ∀ {p : Parameter}, p.Proper → p.toValue.LegibleDeep
  | .record name type internalType indexed components, h => by
    obtain ⟨hname, htype, hinternal, hindexed, hcomponents⟩ := h
    rw [Parameter.toValue]
    refine Value.legibleDeep_fields [("name", name), ("type", type), ("internal_type", internalType),
      ("indexed", indexed), ("components", components.toValue)] (by simp) ?_
    simp [hname.legibleDeep, htype.legibleDeep, hinternal.legibleDeep, hindexed.legibleDeep,
      legibleDeep_parameters hcomponents]
  | .stray _, h => h.elim

theorem legibleDeep_parameters : ∀ {parameters : Parameters}, parameters.Proper → parameters.toValue.LegibleDeep
  | .absent, _ => ⟨0, by rw [Parameters.toValue]; trivial⟩
  | .list ps, h => by
    rw [Parameters.toValue]
    exact Value.legibleDeep_list (legibleDeep_allParameters h)
  | .stray _, h => h.elim

theorem legibleDeep_allParameters : ∀ {ps : List Parameter}, Parameters.AllProper ps →
    ∀ v ∈ Parameters.toValues ps, v.LegibleDeep
  | [], _ => by
    rw [Parameters.toValues]
    exact List.forall_mem_nil _
  | p :: ps, h => by
    rw [Parameters.toValues]
    exact List.forall_mem_cons.2 ⟨legibleDeep_parameter h.1, legibleDeep_allParameters h.2⟩

end

theorem legibleDeep_function {f : FunctionRecord} (h : f.Proper) : f.toValue.LegibleDeep := by
  refine Value.legibleDeep_fields [("name", f.name), ("state_mutability", f.stateMutability), ("constant", f.constant),
    ("payable", f.payable), ("inputs", f.inputs.toValue), ("outputs", f.outputs.toValue), ("signature", f.signature),
    ("selector", f.selector), ("http_method", f.httpMethod)] (by simp) ?_
  simp [h.name.legibleDeep, h.stateMutability.legibleDeep, h.constant.legibleDeep, h.payable.legibleDeep,
    legibleDeep_parameters h.inputs, legibleDeep_parameters h.outputs, h.signature.legibleDeep, h.selector.legibleDeep,
    h.httpMethod.legibleDeep]

theorem legibleDeep_event {e : EventRecord} (h : e.Proper) : e.toValue.LegibleDeep := by
  refine Value.legibleDeep_fields [("name", e.name), ("anonymous", e.anonymous), ("inputs", e.inputs.toValue),
    ("signature", e.signature), ("topic", e.topic)] (by simp) ?_
  simp [h.name.legibleDeep, h.anonymous.legibleDeep, legibleDeep_parameters h.inputs, h.signature.legibleDeep,
    h.topic.legibleDeep]

theorem legibleDeep_error {r : ErrorRecord} (h : r.Proper) : r.toValue.LegibleDeep := by
  refine Value.legibleDeep_fields [("name", r.name), ("inputs", r.inputs.toValue), ("signature", r.signature),
    ("selector", r.selector)] (by simp) ?_
  simp [h.name.legibleDeep, legibleDeep_parameters h.inputs, h.signature.legibleDeep, h.selector.legibleDeep]

theorem legibleDeep_slots {α : Type} {P : α → Prop} {f : α → Value} (hf : ∀ {a}, P a → (f a).LegibleDeep)
    {slots : Slots α} (h : slots.All P) : (slots.toValue f).LegibleDeep := by
  cases slots with
  | stray v => exact h.elim
  | list l =>
    refine Value.legibleDeep_list (List.forall_mem_map.2 fun s hs => ?_)
    obtain ⟨a, rfl, ha⟩ := h s hs
    exact hf ha

theorem legibleDeep_interface {i : Interface} (h : i.Proper) : i.toValue.LegibleDeep := by
  refine Value.legibleDeep_fields [("contract_name", i.contractName),
    ("functions", i.functions.toValue FunctionRecord.toValue), ("events", i.events.toValue EventRecord.toValue),
    ("errors", i.errors.toValue ErrorRecord.toValue)] (by simp) ?_
  simp [h.contractName.legibleDeep, legibleDeep_slots legibleDeep_function h.functions,
    legibleDeep_slots legibleDeep_event h.events, legibleDeep_slots legibleDeep_error h.errors]

/-! ## Objects of records -/

mutual

/-- No two proper parameters have the same object. -/
theorem Parameter.toValue_inj : ∀ {p q : Parameter}, p.Proper → q.Proper → p.toValue = q.toValue → p = q
  | .record name type internalType indexed components, .record name' type' internalType' indexed' components', hp, hq,
      h => by
    simp only [Parameter.toValue, Value.object.injEq, List.cons.injEq, Prod.mk.injEq, true_and, and_true] at h
    obtain ⟨rfl, rfl, rfl, rfl, hc⟩ := h
    rw [Parameters.toValue_inj hp.2.2.2.2 hq.2.2.2.2 hc]
  | .stray _, _, hp, _, _ => hp.elim
  | .record .., .stray _, _, hq, _ => hq.elim

theorem Parameters.toValue_inj : ∀ {ps qs : Parameters}, ps.Proper → qs.Proper → ps.toValue = qs.toValue → ps = qs
  | .absent, .absent, _, _, _ => rfl
  | .list ps, .list qs, hp, hq, h => by
    simp only [Parameters.toValue, Value.list.injEq] at h
    rw [Parameters.toValues_inj hp hq h]
  | .absent, .list _, _, _, h | .list _, .absent, _, _, h => by
    simp only [Parameters.toValue] at h
    cases h
  | .stray _, _, hp, _, _ => hp.elim
  | .absent, .stray _, _, hq, _ | .list _, .stray _, _, hq, _ => hq.elim

theorem Parameters.toValues_inj : ∀ {ps qs : List Parameter}, Parameters.AllProper ps → Parameters.AllProper qs →
    Parameters.toValues ps = Parameters.toValues qs → ps = qs
  | [], [], _, _, _ => rfl
  | p :: ps, q :: qs, hp, hq, h => by
    simp only [Parameters.toValues, List.cons.injEq] at h
    rw [Parameter.toValue_inj hp.1 hq.1 h.1, Parameters.toValues_inj hp.2 hq.2 h.2]
  | [], _ :: _, _, _, h | _ :: _, [], _, _, h => by
    simp only [Parameters.toValues] at h
    cases h

end

theorem FunctionRecord.toValue_inj {f g : FunctionRecord} (hf : f.Proper) (hg : g.Proper)
    (h : f.toValue = g.toValue) : f = g := by
  obtain ⟨name, stateMutability, constant, payable, inputs, outputs, signature, selector, httpMethod⟩ := f
  simp only [FunctionRecord.toValue, Value.object.injEq, List.cons.injEq, Prod.mk.injEq, true_and, and_true] at h
  obtain ⟨rfl, rfl, rfl, rfl, hinputs, houtputs, rfl, rfl, rfl⟩ := h
  cases Parameters.toValue_inj hf.inputs hg.inputs hinputs
  cases Parameters.toValue_inj hf.outputs hg.outputs houtputs
  rfl

theorem EventRecord.toValue_inj {e e' : EventRecord} (he : e.Proper) (he' : e'.Proper) (h : e.toValue = e'.toValue) :
    e = e' := by
  obtain ⟨name, anonymous, inputs, signature, topic⟩ := e
  simp only [EventRecord.toValue, Value.object.injEq, List.cons.injEq, Prod.mk.injEq, true_and, and_true] at h
  obtain ⟨rfl, rfl, hinputs, rfl, rfl⟩ := h
  cases Parameters.toValue_inj he.inputs he'.inputs hinputs
  rfl

theorem ErrorRecord.toValue_inj {r r' : ErrorRecord} (hr : r.Proper) (hr' : r'.Proper) (h : r.toValue = r'.toValue) :
    r = r' := by
  obtain ⟨name, inputs, signature, selector⟩ := r
  simp only [ErrorRecord.toValue, Value.object.injEq, List.cons.injEq, Prod.mk.injEq, true_and, and_true] at h
  obtain ⟨rfl, hinputs, rfl, rfl⟩ := h
  cases Parameters.toValue_inj hr.inputs hr'.inputs hinputs
  rfl

theorem Slots.toValue_inj {α : Type} {P : α → Prop} {f : α → Value} (hf : ∀ {a b}, P a → P b → f a = f b → a = b)
    {s t : Slots α} (hs : s.All P) (ht : t.All P) (h : s.toValue f = t.toValue f) : s = t := by
  cases s with
  | stray v => exact hs.elim
  | list l =>
    cases t with
    | stray v => exact ht.elim
    | list m =>
      refine congrArg Slots.list ?_
      rw [Slots.toValue, Slots.toValue, Value.list.injEq] at h
      induction l generalizing m with
      | nil => exact (List.map_eq_nil_iff.1 h.symm).symm
      | cons x l ih =>
        cases m with
        | nil => cases h
        | cons y m =>
          obtain ⟨⟨a, rfl, ha⟩, hl⟩ := List.forall_mem_cons.1 hs
          obtain ⟨⟨b, rfl, hb⟩, hm⟩ := List.forall_mem_cons.1 ht
          obtain ⟨hhead, htail⟩ := List.cons.inj h
          rw [hf ha hb hhead, ih hl m hm htail]

/-- No two proper interfaces have the same object. -/
theorem Interface.toValue_inj {i j : Interface} (hi : i.Proper) (hj : j.Proper) (h : i.toValue = j.toValue) : i = j := by
  obtain ⟨contractName, functions, events, errors⟩ := i
  simp only [Interface.toValue, Value.object.injEq, List.cons.injEq, Prod.mk.injEq, true_and, and_true] at h
  obtain ⟨rfl, hfunctions, hevents, herrors⟩ := h
  cases Slots.toValue_inj FunctionRecord.toValue_inj hi.functions hj.functions hfunctions
  cases Slots.toValue_inj EventRecord.toValue_inj hi.events hj.events hevents
  cases Slots.toValue_inj ErrorRecord.toValue_inj hi.errors hj.errors herrors
  rfl

end Abi

/-! ## Texts and what is read back -/

/-- Whether the value has an ASCII text in the layout that an indentation asks for, from which it is read back. -/
def WrittenBack (read : Text → Except ReadFault Value) (v indent : Value) : Prop :=
  ∃ text, (toJson (.value v) indent).result = .ok text ∧ text.Ascii ∧ read text = .ok v

theorem writtenBack_of_legible {levels more : Nat} {v indent : Value} (h : v.Legible levels) (hmore : levels ≤ more)
    (hi : IsSpacing indent) : WrittenBack (readWithin more) v indent := by
  obtain ⟨layout, hl, hb⟩ := hi.exists_layout
  exact ⟨write layout v, result_toJson v hl, ascii_write hb v, readWithin_write (h.mono hmore) hb⟩

theorem result_toJson_of_error {v : Value} (hv : v.kind ≠ .text) {indent : Value} {fault : Fault}
    (h : layoutOf indent = .error fault) : (toJson (.value v) indent).result = .error (.fault fault) := by
  have hfail {f : Layout → Outcome Text} : (Outcome.ofFault (layoutOf indent) >>= f).result = .error (.fault fault) := by
    rw [h]
    rfl
  cases v with
  | text t => exact absurd rfl hv
  | null | bool _ | int _ | float _ | list _ | object _ => exact hfail

/-- For an integer beyond 64 bits there is no text, unless a text alone is written. -/
theorem toJson_of_not_isSpacing {v : Value} (hv : v.kind ≠ .text) {n : Int} (hn : ¬IsSpacing (.int n)) :
    (toJson (.value v) (.int n)).result = .error (.fault .indentTooLarge) := by
  refine result_toJson_of_error hv ?_
  rw [isSpacing_int] at hn
  rw [layoutOf, layoutOfInt] at hn ⊢
  split_ifs at hn ⊢
  · rfl
  · exact absurd ⟨_, rfl⟩ hn

/-- For null and for every integer that 64 bits hold, descriptions whose parameters are named by texts and interfaces of
texts and truth values have ASCII texts from which they are read back as they were, and no two such interfaces ever have
the same text. For other integers there is no text. -/
theorem written_invertible :
    (∀ raw contractName strict d fs es rs indent,
      (convert raw contractName strict).result = .ok (.success d) →
      (readInterface raw contractName).result = .ok (.ofRecords (contractNameOf raw contractName) fs es rs) →
      NamedByTexts fs es rs → (contractNameOf raw contractName).Unsplit → (∀ f ∈ fs, f.Unsplit) → (∀ e ∈ es, e.Unsplit) →
      (∀ r ∈ rs, r.Unsplit) → IsSpacing indent → ∀ more, documentLevels ≤ more → WrittenBack (readWithin more) d indent) ∧
    (∀ i : Interface, i.Proper → ∃ levels, ∀ more, levels ≤ more → ∀ indent, IsSpacing indent →
      WrittenBack (readWithin more) i.toValue indent) ∧
    (∀ (i j : Interface) (indent indent' : Value) (text : Text), i.Proper → j.Proper → IsSpacing indent →
      IsSpacing indent' → (toJson (.value i.toValue) indent).result = .ok text →
      (toJson (.value j.toValue) indent').result = .ok text → i = j) ∧
    ∀ (v : Value) (n : Int), v.kind ≠ .text → ¬IsSpacing (.int n) →
      (toJson (.value v) (.int n)).result = .error (.fault .indentTooLarge) := by
  refine ⟨fun raw contractName strict d fs es rs indent h hread hnames hn hf he hr hi more hmore => ?_, fun i hi => ?_,
    fun i j indent indent' text hi hj hs hs' ht ht' => ?_, fun v n hv hn => toJson_of_not_isSpacing hv hn⟩
  · exact writtenBack_of_legible (legible_success hread h hnames hn hf he hr).1 hmore hi
  · obtain ⟨levels, hl⟩ := legibleDeep_interface hi
    exact ⟨levels, fun more hmore indent hs => writtenBack_of_legible hl hmore hs⟩
  · obtain ⟨levels, hl⟩ := legibleDeep_interface hi
    obtain ⟨levels', hl'⟩ := legibleDeep_interface hj
    obtain ⟨t, hwritten, _, hback⟩ := writtenBack_of_legible hl (Nat.le_max_left levels levels') hs
    obtain ⟨t', hwritten', _, hback'⟩ := writtenBack_of_legible hl' (Nat.le_max_right levels levels') hs'
    cases hwritten.symm.trans ht
    cases hwritten'.symm.trans ht'
    exact Interface.toValue_inj hi hj (Except.ok.inj (hback.symm.trans hback'))

/-- An interface of one function, with a parameter that has a member. -/
def till : Interface :=
  .ofRecords "Till" [{
    name := "pay"
    stateMutability := "payable"
    constant := .bool false
    payable := .bool true
    inputs := .list [.record "order" "tuple" "struct Order" (.bool false)
      (.list [.record "amount" "uint8" "uint8" (.bool false) .absent])]
    outputs := .list []
    signature := "pay((uint8))"
    selector := "0x5a51bd8f"
    httpMethod := "POST" }] [] []

theorem till_proper : till.Proper where
  contractName := Text.unsplit_ofString _
  functions := Slots.all_records.2 <| List.forall_mem_singleton.2 {
    name := Text.unsplit_ofString _
    stateMutability := Text.unsplit_ofString _
    constant := trivial
    payable := trivial
    inputs := by
      simp [Parameters.Proper, Parameters.AllProper, Parameter.Proper, Value.IsSimple, Text.unsplit_ofString]
    outputs := trivial
    signature := Text.unsplit_ofString _
    selector := Text.unsplit_ofString _
    httpMethod := Text.unsplit_ofString _ }
  events := Slots.all_records.2 (List.forall_mem_nil _)
  errors := Slots.all_records.2 (List.forall_mem_nil _)

/-- The shop is read and described, and all its parameters are named by texts. -/
theorem shop_described : ∃ fs es rs d,
    (readInterface shop .null).result = .ok (.ofRecords (contractNameOf shop .null) fs es rs) ∧
      (convert shop .null (.bool false)).result = .ok (.success d) ∧ NamedByTexts fs es rs := by
  obtain ⟨fs, es, rs, hi, hf, he, hr⟩ := exists_read shop_wellFormed .null
  obtain ⟨parts⟩ := exists_parts hf he hr
  have ha := assemble_eq_ok.2 ⟨parts.buildDocument_eq (contractNameOf shop .null),
    fun h : (Value.bool false).isTruthy = true => nomatch h⟩
  have hv : ¬IsRejected shop := by
    rw [isRejected_iff, isValid_of_wellFormed shop_wellFormed]
    exact Bool.noConfusion
  exact ⟨fs, es, rs, _, hi, convert_of_described hv (description_eq_ok.2 ⟨_, hi, ha⟩),
    fun f h => ⟨(hf f h).inputs, (hf f h).outputs⟩, fun e h => (he e h).inputs, fun r h => (hr r h).inputs⟩

theorem written_invertible_shop :
    (∃ d, (convert shop .null (.bool false)).result = .ok (.success d) ∧
      WrittenBack (readWithin documentLevels) d (.int (-3))) ∧
      (till.Proper ∧ ∃ levels, ∀ more, levels ≤ more → WrittenBack (readWithin more) till.toValue .null) ∧
      (∀ (j : Interface) (text : Text), j.Proper → (toJson (.value till.toValue) .null).result = .ok text →
        (toJson (.value j.toValue) (.int (-3))).result = .ok text → till = j) ∧
      (toJson (.value till.toValue) (.int 0x8000000000000000)).result = .error (.fault .indentTooLarge) := by
  obtain ⟨hdocuments, hinterfaces, hunique, hother⟩ := written_invertible
  have hspaces : IsSpacing (.int (-3)) := .inr ⟨-3, rfl, by decide, by decide⟩
  have hline : IsSpacing .null := .inl rfl
  refine ⟨?_, ⟨till_proper, ?_⟩, fun j text hj => hunique till j _ _ text till_proper hj hline hspaces,
    hother _ _ (fun h => by cases h) ?_⟩
  · obtain ⟨fs, es, rs, d, hi, hd, hnames⟩ := shop_described
    have hunsplit : shop.Unsplit := by
      simp [shop, Value.Unsplit, Value.ItemsUnsplit, Value.EntriesUnsplit, Text.unsplit_ofString]
    have hnull : Value.null.Unsplit := trivial
    obtain ⟨huf, hue, hur⟩ := unsplit_records hi hunsplit
    exact ⟨d, hd, hdocuments shop .null (.bool false) d fs es rs (.int (-3)) hd hi hnames
      (unsplit_contractNameOf hunsplit hnull) huf hue hur hspaces _ (Nat.le_refl _)⟩
  · obtain ⟨levels, hback⟩ := hinterfaces till till_proper
    exact ⟨levels, fun more hmore => hback more hmore .null hline⟩
  · rintro (h | ⟨n, h, _, hn⟩)
    · cases h
    · cases h
      exact absurd hn (by decide)

/-- Not every integer is an indentation: one that is beyond 64 bits leads to no text. -/
theorem not_always_written : ¬∀ (i : Interface) (n : Int), i.Proper →
    ∃ text, (toJson (.value i.toValue) (.int n)).result = .ok text := by
  intro h
  obtain ⟨text, ht⟩ := h till (-0x8000000000000001) till_proper
  have hlarge : layoutOf (.int (-0x8000000000000001)) = .error .indentTooLarge := rfl
  cases ht.symm.trans (result_toJson_of_error (fun h => by cases h) hlarge)

end ContractApi
