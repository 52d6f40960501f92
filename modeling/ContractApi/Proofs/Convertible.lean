import ContractApi.Proofs.Gate
import ContractApi.Proofs.Results
/-!
# Well-formed documents convert

A document is well formed if its items are, and an item if its kind is known, its names are texts and its parameters
are given in full, down to the level that is supported. Members have to be well formed whatever type they are given with.

- Validation finds nothing in a well-formed document (`isValid_of_wellFormed`), and it is read, as records that are well
  formed in turn (`exists_read`).
- So the document converts (`convert_wellFormed`).
-/

namespace ContractApi

open Abi OpenApi

namespace Abi

/-! ## Well-formed items -/

/-- Whether a name is missing or a text. -/
def NullOrText (name : Value) : Prop := name = .null ∨ name.IsText

/-- Whether a name is a text and not empty. -/
def IsName (name : Value) : Prop := ∃ t, name = .text t ∧ t ≠ []

/-- Whether a parameter list has at most `levels` levels and is given in full. -/
def WellFormedWithin : Nat → Value → Prop
  | _, .null => True
  | 0, _ => False
  | levels + 1, .list parameters => ∀ p ∈ parameters, ∃ entries, p = .object entries ∧
      IsName (Value.field "type" entries) ∧ NullOrText (Value.field "name" entries) ∧
      WellFormedWithin levels (Value.field "components" entries)
  | _ + 1, _ => False

/-- Whether the entries give a well-formed parameter list under the name, or none. -/
def ParametersGiven (name : Text) (entries : List (Key × Value)) : Prop :=
  WellFormedWithin (maxDepth + 1) (Value.field name entries)

/-- Whether a mutability is missing, empty, or one of those that there are. -/
def MutabilityGiven (v : Value) : Prop := v = .null ∨ v = .text [] ∨ ∃ m : Mutability, v = .text m.word

/-- Whether the item of a kind with these entries is well formed. -/
def ItemWellFormed (entries : List (Key × Value)) : ItemKind → Prop
  | .function => IsName (Value.field "name" entries) ∧ ParametersGiven "inputs" entries ∧
      ParametersGiven "outputs" entries ∧ MutabilityGiven (Value.field "stateMutability" entries)
  | .event => IsName (Value.field "name" entries) ∧ ParametersGiven "inputs" entries ∧
      ∀ anonymous, Value.lookup? "anonymous" entries = some anonymous → ∃ b, anonymous = .bool b
  | .error => NullOrText (Value.field "name" entries) ∧ ParametersGiven "inputs" entries
  | .constructor => ParametersGiven "inputs" entries
  | .fallback | .receive => True
  | .unknown => False

/-- Whether the items of a document, of which there is at least one, are well formed and hold no surrogate. -/
structure DocumentWellFormed (raw : Value) : Prop where
  items : ∃ items, itemList? raw = some items ∧ items ≠ [] ∧
    ∀ item ∈ items, ∃ entries, item = .object entries ∧ ItemWellFormed entries (ItemKind.of item)
  plain : raw.Plain

/-! ## Parameters -/

theorem IsName.isTruthy {v : Value} (h : IsName v) : v.isTruthy = true := by
  obtain ⟨t, rfl, ht⟩ := h
  cases t with
  | nil => exact absurd rfl ht
  | cons c t => rfl

theorem NullOrText.orElse {v : Value} (h : NullOrText v) (t : Text) : (v.orElse (.text t)).IsText := by
  unfold Value.orElse
  split
  · rcases h with rfl | h
    · exact ⟨t, by simp_all [Value.isTruthy]⟩
    · exact h
  · exact ⟨t, rfl⟩

theorem validParameters_of_wellFormed : ∀ {levels : Nat} {v : Value}, WellFormedWithin levels v →
    validParametersWithin levels v = true
  | 0, v, h => by
    cases v with
    | null => rfl
    | _ => exact absurd h id
  | levels + 1, v, h => by
    cases v with
    | null => rfl
    | list parameters =>
      rw [validParametersWithin, List.all_eq_true]
      intro p hp
      obtain ⟨entries, rfl, ⟨type, htype, hne⟩, _, hm⟩ := h p hp
      have ih := validParameters_of_wellFormed hm
      simp only [htype]
      unfold Value.field at ih
      cases hl : Value.lookup? "components" entries with
      | none => simpa using hne
      | some components =>
        rw [hl, Option.getD_some] at ih
        simp [hne, ih]
    | _ => exact absurd h id

/-- Well-formed members can be read and rendered. -/
theorem reads_of_wellFormed : ∀ {levels : Nat} {v : Value} (rendered : Bool), WellFormedWithin levels v →
    Reads levels rendered v
  | 0, v, rendered, h => by
    cases v with
    | null => exact reads_null 0 rendered
    | _ => exact absurd h id
  | levels + 1, v, rendered, h => by
    cases v with
    | null => exact reads_null _ rendered
    | list parameters =>
      rw [reads_list]
      intro p hp
      obtain ⟨entries, rfl, ⟨type, htype, _⟩, _, hm⟩ := h p hp
      have hl := lookup?_of_field (by simp) htype
      rw [reads_parameter]
      exact ⟨.text type, hl, fun _ => ⟨type, rfl⟩, reads_of_wellFormed _ hm⟩
    | _ => exact absurd h id

theorem readableBelow_of_wellFormed {levels : Nat} {v : Value} (rendered : Bool) (h : WellFormedWithin levels v) :
    ReadableBelow levels rendered v :=
  (reads_iff_readableBelow levels rendered v (validParameters_of_wellFormed h)).1 (reads_of_wellFormed rendered h)

/-- What is read of a well-formed parameter list is well formed. -/
theorem wellFormed_of_readParameters : ∀ {levels : Nat} {v : Value} {ps : List Parameter}, WellFormedWithin levels v →
    readParametersWithin levels v = .ok ps → ∀ p ∈ ps, p.WellFormed
  | 0, _, _, _, hr => by cases hr
  | levels + 1, v, ps, h, hr => by
    rw [readParametersWithin_succ] at hr
    cases v with
    | null =>
      cases hr
      exact fun _ h => absurd h List.not_mem_nil
    | list parameters =>
      rw [listed_list] at hr
      intro p hp
      obtain ⟨q, hq, hread⟩ := exists_of_mem_mapM hr p hp
      obtain ⟨entries, rfl, _, hname, hm⟩ := h q hq
      obtain ⟨_, type, components, he, _, hc, rfl⟩ := readParameter_eq_ok hread
      cases he
      refine ⟨hname.orElse "", ?_⟩
      by_cases hv : Value.field "components" entries = .null
      · rw [hv] at hc
        cases hc
        trivial
      · rw [readMembers_of_ne_null levels hv] at hc
        obtain ⟨members, hmembers, rfl⟩ := except_map_eq_ok.1 hc
        exact Parameters.allWellFormed_iff.2 (wellFormed_of_readParameters hm hmembers)
    | _ => exact absurd h id

theorem isList_of_readParameters {name : Text} {entries : List (Key × Value)} {parameters : Parameters}
    (h : ParametersGiven name entries)
    (hr : ∃ ps, readParameters (Value.field name entries) = .ok ps ∧ parameters = .list ps) : parameters.IsList := by
  obtain ⟨ps, hps, rfl⟩ := hr
  exact ⟨ps, rfl, wellFormed_of_readParameters h hps⟩

/-! ## Items -/

variable {entries : List (Key × Value)}

/-- An item of a known kind has a type. -/
theorem isTruthy_type (h : ItemKind.of (.object entries) ≠ .unknown) :
    (Value.field "type" entries).isTruthy = true := by
  simp only [ItemKind.of] at h
  split at h
  · rename_i word hword
    rw [hword]
    cases word with
    | nil => exact absurd (by decide) h
    | cons c word => rfl
  · exact absurd rfl h

theorem isSome_ofValue? (m : Mutability) : (Mutability.ofValue? (.text m.word)).isNone = false := by
  cases m <;> decide

/-- Nothing is wrong with a well-formed item. -/
theorem itemProblems_of_wellFormed (index : Nat) (h : ItemWellFormed entries (ItemKind.of (.object entries))) :
    itemProblems (.object entries) index = [] := by
  have hu : ItemKind.of (.object entries) ≠ .unknown := by
    intro e
    rw [e] at h
    exact h
  simp only [itemProblems, isTruthy_type hu, if_true]
  cases hk : ItemKind.of (.object entries) with
  | function =>
    rw [hk] at h
    obtain ⟨hn, hi, ho, hm⟩ := h
    have hmut : ((Value.field "stateMutability" entries).isTruthy &&
        (Mutability.ofValue? (Value.field "stateMutability" entries)).isNone) = false := by
      rcases hm with hm | hm | ⟨m, hm⟩
      · rw [hm]; rfl
      · rw [hm]; rfl
      · rw [hm, isSome_ofValue?, Bool.and_false]
    simp [functionProblems, problemIf, hn.isTruthy, parametersValidAt, validParameters,
      validParameters_of_wellFormed hi, validParameters_of_wellFormed ho, hmut]
  | event =>
    rw [hk] at h
    obtain ⟨hn, hi, ha⟩ := h
    have hanonymous : anonymousValid entries = true := by
      unfold anonymousValid
      cases hl : Value.lookup? "anonymous" entries with
      | none => rfl
      | some anonymous =>
        obtain ⟨b, rfl⟩ := ha anonymous hl
        rfl
    simp [eventProblems, problemIf, hn.isTruthy, parametersValidAt, validParameters,
      validParameters_of_wellFormed hi, hanonymous]
  | error =>
    rw [hk] at h
    simp [problemIf, parametersValidAt, validParameters, validParameters_of_wellFormed h.2]
  | constructor =>
    rw [hk] at h
    simp [problemIf, parametersValidAt, validParameters, validParameters_of_wellFormed h]
  | fallback => rfl
  | receive => rfl
  | unknown => exact absurd hk hu

theorem itemReadable_of_wellFormed {kind : ItemKind} (h : ItemWellFormed entries kind) : ItemReadable entries kind := by
  cases kind with
  | function => exact ⟨readableBelow_of_wellFormed true h.2.1, readableBelow_of_wellFormed false h.2.2.1⟩
  | event => exact readableBelow_of_wellFormed true h.2.1
  | error => exact readableBelow_of_wellFormed true h.2
  | _ => trivial

theorem IsName.requiredEntry {v : Value} (h : IsName (Value.field "name" entries))
    (hr : requiredEntry "name" entries = .ok v) : v.IsText := by
  obtain ⟨t, ht, _⟩ := h
  rw [Abi.requiredEntry, lookup?_of_field (by simp) ht] at hr
  cases hr
  exact ⟨t, rfl⟩

theorem function_wellFormed {f : FunctionRecord} (h : ItemWellFormed entries .function)
    (hr : readFunction (.object entries) entries = .ok f) : f.WellFormed := by
  obtain ⟨hn, hi, ho, _⟩ := h
  obtain ⟨hname, hinputs, houtputs, _⟩ := readFunction_eq_ok hr
  exact ⟨hn.requiredEntry hname, httpMethod_of_readFunction hr, isList_of_readParameters hi hinputs,
    isList_of_readParameters ho houtputs⟩

theorem event_wellFormed {e : EventRecord} (h : ItemWellFormed entries .event)
    (hr : readEvent (.object entries) entries = .ok e) : e.WellFormed := by
  obtain ⟨hn, hi, _⟩ := h
  obtain ⟨hname, hinputs, _⟩ := readEvent_eq_ok hr
  exact ⟨hn.requiredEntry hname, isList_of_readParameters hi hinputs⟩

theorem error_wellFormed {e : ErrorRecord} (h : ItemWellFormed entries .error)
    (hr : readError (.object entries) entries = .ok e) : e.WellFormed := by
  obtain ⟨hn, hi⟩ := h
  obtain ⟨hname, hinputs, _⟩ := readError_eq_ok hr
  refine ⟨?_, isList_of_readParameters hi hinputs⟩
  rw [hname]
  exact hn.orElse ""

/-! ## Documents -/

variable {raw contractName : Value}

/-- Every record of an interface that was read was read from an item of its kind. -/
theorem readInterface_records {i : Interface} (h : (readInterface raw contractName).result = .ok i) :
    ∃ items fs es rs, itemList? raw = some items ∧ i = .ofRecords (contractNameOf raw contractName) fs es rs ∧
      (∀ f ∈ fs, ∃ entries, .object entries ∈ items ∧ (ItemRecord.function f).ReadFrom entries) ∧
      (∀ e ∈ es, ∃ entries, .object entries ∈ items ∧ (ItemRecord.event e).ReadFrom entries) ∧
      ∀ r ∈ rs, ∃ entries, .object entries ∈ items ∧ (ItemRecord.error r).ReadFrom entries := by
  obtain ⟨items, records, hl, hr, rfl⟩ := readInterface_eq_ok.1 h
  exact ⟨items, _, _, _, hl, Interface.ofItems_eq _ _, readFrom_of_filterMap function?_eq_some hr,
    readFrom_of_filterMap event?_eq_some hr, readFrom_of_filterMap error?_eq_some hr⟩

/-- Validation finds nothing in a well-formed document. -/
theorem isValid_of_wellFormed (h : DocumentWellFormed raw) : (validate raw).isValid = true := by
  obtain ⟨items, hl, hne, hitems⟩ := h.items
  have hproblems : (items.zipIdx.flatMap fun e => itemProblems e.1 e.2) = [] := by
    refine List.flatMap_eq_nil_iff.2 fun e he => ?_
    obtain ⟨entries, heq, hwf⟩ := hitems e.1 (List.fst_mem_of_mem_zipIdx he)
    rw [heq] at hwf ⊢
    exact itemProblems_of_wellFormed _ hwf
  unfold validate
  rw [hl]
  cases items with
  | nil => exact absurd rfl hne
  | cons item items =>
    simp only []
    rw [hproblems]
    rfl

/-- A well-formed document is read, as well-formed records. -/
theorem exists_read (h : DocumentWellFormed raw) (contractName : Value) : ∃ fs es rs,
    (readInterface raw contractName).result = .ok (.ofRecords (contractNameOf raw contractName) fs es rs) ∧
      (∀ f ∈ fs, f.WellFormed) ∧ (∀ e ∈ es, e.WellFormed) ∧ ∀ r ∈ rs, r.WellFormed := by
  obtain ⟨items, hl, hne, hitems⟩ := h.items
  have hplain := plain_of_itemList? h.plain hl
  have hs : (readInterface raw contractName).Succeeds := by
    rw [succeeds_readInterface hl]
    intro e he
    have hmem := List.fst_mem_of_mem_zipIdx he
    obtain ⟨entries, heq, hwf⟩ := hitems e.1 hmem
    rw [heq] at hwf
    have hp := itemProblems_of_wellFormed e.2 hwf
    rw [← heq] at hp
    obtain ⟨entries', heq', hiff⟩ := returns_readItem (hplain _ hmem) hp
    cases heq.symm.trans heq'
    exact hiff.2 (itemReadable_of_wellFormed hwf)
  obtain ⟨i, hi⟩ := hs
  obtain ⟨items', fs, es, rs, hl', rfl, hf, he, hr⟩ := readInterface_records hi
  cases hl.symm.trans hl'
  have hwf : ∀ entries kind, .object entries ∈ items → ItemKind.of (.object entries) = kind →
      ItemWellFormed entries kind := by
    rintro entries _ hmem rfl
    obtain ⟨entries', heq, hwf⟩ := hitems _ hmem
    cases heq
    exact hwf
  refine ⟨fs, es, rs, hi, fun f hmem => ?_, fun e hmem => ?_, fun r hmem => ?_⟩
  · obtain ⟨entries, hitem, hk, hread⟩ := hf f hmem
    exact function_wellFormed (hwf entries _ hitem hk) hread
  · obtain ⟨entries, hitem, hk, hread⟩ := he e hmem
    exact event_wellFormed (hwf entries _ hitem hk) hread
  · obtain ⟨entries, hitem, hk, hread⟩ := hr r hmem
    exact error_wellFormed (hwf entries _ hitem hk) hread

end Abi

/-! ## Conversion -/

/-- Every well-formed document converts, whatever the contract is called: it is read, its interface is described, and
the description is the result. -/
theorem convert_wellFormed {raw : Value} (h : DocumentWellFormed raw) (contractName : Value) : ∃ i d entries,
    (readInterface raw contractName).result = .ok i ∧ (assemble (.record i) (.bool false)).result = .ok d ∧
      (convert raw contractName (.bool false)).result = .ok (.success d.toValue) ∧ d.toValue = .object entries ∧
      Table.keys entries = ["openapi", "info", "paths", "components"] := by
  obtain ⟨fs, es, rs, hi, hf, he, hr⟩ := exists_read h contractName
  obtain ⟨parts⟩ := exists_parts hf he hr
  have hb := parts.buildDocument_eq (contractNameOf raw contractName)
  have ha := assemble_eq_ok.2 ⟨hb, fun hs : (Value.bool false).isTruthy = true => by cases hs⟩
  have hv : ¬IsRejected raw := by
    rw [isRejected_iff, isValid_of_wellFormed h]
    exact Bool.noConfusion
  have hd := description_eq_ok.2 ⟨_, hi, ha⟩
  exact ⟨_, _, _, hi, ha, convert_of_described hv hd, rfl, rfl⟩

/-- A shop that takes orders, each of which has one member, and says when it was paid or why not. -/
def shop : Value := .list [
  .object [("type", "function"), ("name", "order"), ("stateMutability", "payable"),
    ("inputs", .list [.object [("name", "goods"), ("type", "tuple"),
      ("components", .list [.object [("type", "uint8")]])]])],
  .object [("type", "event"), ("name", "Paid"), ("anonymous", .bool false)],
  .object [("type", "error"), ("name", .null)],
  .object [("type", "fallback")]]

theorem shop_wellFormed : DocumentWellFormed shop where
  items := by
    have hname : ∀ c t, IsName (.text (c :: t)) := fun c t => ⟨c :: t, rfl, List.cons_ne_nil c t⟩
    have hgoods : WellFormedWithin (maxDepth + 1) (.list [.object [("name", "goods"), ("type", "tuple"),
        ("components", .list [.object [("type", "uint8")]])]]) := by
      refine List.forall_mem_singleton.2 ⟨_, rfl, hname _ _, .inr ⟨_, rfl⟩, ?_⟩
      exact List.forall_mem_singleton.2 ⟨_, rfl, hname _ _, .inl rfl, trivial⟩
    refine ⟨_, rfl, List.cons_ne_nil _ _, ?_⟩
    simp only [List.forall_mem_cons]
    refine ⟨⟨_, rfl, ?_⟩, ⟨_, rfl, ?_⟩, ⟨_, rfl, ?_⟩, ⟨_, rfl, trivial⟩, fun _ h => absurd h List.not_mem_nil⟩
    · exact ⟨hname _ _, hgoods, trivial, .inr (.inr ⟨.payable, rfl⟩)⟩
    · exact ⟨hname _ _, trivial, fun anonymous h => ⟨false, (Option.some.inj h).symm⟩⟩
    · exact ⟨.inl rfl, trivial⟩
  plain := by
    have hs := Text.plain_ofString
    simp [shop, Value.Plain, Value.ItemsPlain, Value.EntriesPlain, Key.display, hs]

theorem convert_wellFormed_shop : ∃ d : Document,
    (convert shop .null (.bool false)).result = .ok (.success d.toValue) := by
  obtain ⟨_, d, _, _, _, hd, _⟩ := convert_wellFormed shop_wellFormed .null
  exact ⟨d, hd⟩

end ContractApi
