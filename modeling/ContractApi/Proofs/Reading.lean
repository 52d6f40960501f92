import ContractApi.Abi.Reading
import ContractApi.Proofs.Outcome
/-!
# Reading items one by one

- A document is read exactly if it has an item list and each item can be read (`readInterface_eq_ok`,
  `readItems_cons_eq_ok`, `succeeds_readInterface`).
- Reading tells of nothing but items that are skipped (`notices_readInterface`).
- A document that cannot be read fails as one that cannot be read (`stage_readInterface`).
- Every record was read from an item of its kind (`readFrom_of_readItems`), functions with one of two methods
  (`httpMethod_of_readItems`).
-/

namespace ContractApi.Abi

/-! ## One item -/

theorem returns_liftFault {α : Type} {x : Except Fault α} : Returns (liftFault x) ↔ Returns x := returns_mapError

theorem liftFault_eq_ok {α : Type} {x : Except Fault α} {a : α} : liftFault x = .ok a ↔ x = .ok a := by
  cases x <;> simp [liftFault, Except.mapError]

/-- What is known of a function that was read. -/
theorem readFunction_eq_ok {item : Value} {entries : List (Key × Value)} {f : FunctionRecord}
    (h : readFunction item entries = .ok f) : requiredEntry "name" entries = .ok f.name ∧
      (∃ ps, readParameters (Value.field "inputs" entries) = .ok ps ∧ f.inputs = .list ps) ∧
      (∃ ps, readParameters (Value.field "outputs" entries) = .ok ps ∧ f.outputs = .list ps) ∧
      (∃ t, plainSignature item = .ok t ∧ f.signature = .text t) ∧
      (∃ t, selector item = .ok t ∧ f.selector = .text t) ∧
      ∃ method, httpMethod item = .ok method ∧ f.httpMethod = .text method := by
  obtain ⟨name, hn, h⟩ := except_bind_eq_ok.1 h
  obtain ⟨inputs, hi, h⟩ := except_bind_eq_ok.1 h
  obtain ⟨outputs, ho, h⟩ := except_bind_eq_ok.1 h
  obtain ⟨signature, hs, h⟩ := except_bind_eq_ok.1 h
  obtain ⟨selector, hd, h⟩ := except_bind_eq_ok.1 h
  obtain ⟨method, hm, h⟩ := except_bind_eq_ok.1 h
  cases h
  exact ⟨liftFault_eq_ok.1 hn, ⟨inputs, hi, rfl⟩, ⟨outputs, ho, rfl⟩, ⟨signature, liftFault_eq_ok.1 hs, rfl⟩,
    ⟨selector, liftFault_eq_ok.1 hd, rfl⟩, method, liftFault_eq_ok.1 hm, rfl⟩

theorem readEvent_eq_ok {item : Value} {entries : List (Key × Value)} {e : EventRecord}
    (h : readEvent item entries = .ok e) : requiredEntry "name" entries = .ok e.name ∧
      (∃ ps, readParameters (Value.field "inputs" entries) = .ok ps ∧ e.inputs = .list ps) ∧
      (∃ t, plainSignature item = .ok t ∧ e.signature = .text t) ∧ ∃ t, topic item = .ok t ∧ e.topic = .text t := by
  obtain ⟨name, hn, h⟩ := except_bind_eq_ok.1 h
  obtain ⟨inputs, hi, h⟩ := except_bind_eq_ok.1 h
  obtain ⟨signature, hs, h⟩ := except_bind_eq_ok.1 h
  obtain ⟨topic, ht, h⟩ := except_bind_eq_ok.1 h
  cases h
  exact ⟨liftFault_eq_ok.1 hn, ⟨inputs, hi, rfl⟩, ⟨signature, liftFault_eq_ok.1 hs, rfl⟩, topic,
    liftFault_eq_ok.1 ht, rfl⟩

theorem readError_eq_ok {item : Value} {entries : List (Key × Value)} {e : ErrorRecord}
    (h : readError item entries = .ok e) : e.name = (Value.field "name" entries).orElse "" ∧
      (∃ ps, readParameters (Value.field "inputs" entries) = .ok ps ∧ e.inputs = .list ps) ∧
      (∃ t, plainSignature item = .ok t ∧ e.signature = .text t) ∧
      ∃ t, selector item = .ok t ∧ e.selector = .text t := by
  obtain ⟨inputs, hi, h⟩ := except_bind_eq_ok.1 h
  obtain ⟨signature, hs, h⟩ := except_bind_eq_ok.1 h
  obtain ⟨selector, hd, h⟩ := except_bind_eq_ok.1 h
  cases h
  exact ⟨rfl, ⟨inputs, hi, rfl⟩, ⟨signature, liftFault_eq_ok.1 hs, rfl⟩, selector, liftFault_eq_ok.1 hd, rfl⟩

/-- Whether the record is what an object with these entries is read as. -/
def ItemRecord.ReadFrom (entries : List (Key × Value)) : ItemRecord → Prop
  | .function f => ItemKind.of (.object entries) = .function ∧ readFunction (.object entries) entries = .ok f
  | .event e => ItemKind.of (.object entries) = .event ∧ readEvent (.object entries) entries = .ok e
  | .error e => ItemKind.of (.object entries) = .error ∧ readError (.object entries) entries = .ok e
  | .skipped type => type = Value.field "type" entries

/-- What an item is read as, by its kind. -/
theorem readItem_cases {item : Value} {index : Nat} {record : ItemRecord} (h : readItem item index = .ok record) :
    ∃ entries, item = .object entries ∧
      ((∃ f, ItemKind.of item = .function ∧ record = .function f ∧ readFunction item entries = .ok f) ∨
        (∃ e, ItemKind.of item = .event ∧ record = .event e ∧ readEvent item entries = .ok e) ∨
        (∃ r, ItemKind.of item = .error ∧ record = .error r ∧ readError item entries = .ok r) ∨
        ItemKind.of item ∉ [ItemKind.function, .event, .error] ∧ record = .skipped (Value.field "type" entries)) := by
  cases item with
  | object entries =>
    refine ⟨entries, rfl, ?_⟩
    rw [readItem] at h
    cases hk : ItemKind.of (.object entries) with
    | function =>
      rw [hk] at h
      obtain ⟨f, hf, rfl⟩ := except_map_eq_ok.1 h
      exact .inl ⟨f, rfl, rfl, hf⟩
    | event =>
      rw [hk] at h
      obtain ⟨e, he, rfl⟩ := except_map_eq_ok.1 h
      exact .inr (.inl ⟨e, rfl, rfl, he⟩)
    | error =>
      rw [hk] at h
      obtain ⟨r, hr, rfl⟩ := except_map_eq_ok.1 h
      exact .inr (.inr (.inl ⟨r, rfl, rfl, hr⟩))
    | constructor | fallback | receive | unknown =>
      rw [hk] at h
      cases h
      exact .inr (.inr (.inr ⟨by decide, rfl⟩))
  | _ => cases h

/-- An item that is read is an object, and its kind says how it is read. -/
theorem readItem_eq_ok {item : Value} {index : Nat} {record : ItemRecord} (h : readItem item index = .ok record) :
    ∃ entries, item = .object entries ∧ record.ReadFrom entries := by
  obtain ⟨entries, rfl, ⟨f, hk, rfl, hf⟩ | ⟨e, hk, rfl, he⟩ | ⟨r, hk, rfl, hr⟩ | ⟨_, rfl⟩⟩ := readItem_cases h
  · exact ⟨entries, rfl, hk, hf⟩
  · exact ⟨entries, rfl, hk, he⟩
  · exact ⟨entries, rfl, hk, hr⟩
  · exact ⟨entries, rfl, rfl⟩

theorem httpMethod_eq_ok {item : Value} {method : Text} (h : httpMethod item = .ok method) :
    method = "GET" ∨ method = "POST" := by
  obtain ⟨entries, _, h⟩ := except_bind_eq_ok.1 h
  rw [← Except.ok.inj h]
  exact ite_eq_or_eq _ _ _

/-- A function is read with one of two methods. -/
theorem httpMethod_of_readFunction {item : Value} {entries : List (Key × Value)} {f : FunctionRecord}
    (h : readFunction item entries = .ok f) : f.httpMethod = .text "GET" ∨ f.httpMethod = .text "POST" := by
  obtain ⟨_, _, _, _, _, method, hm, hmethod⟩ := readFunction_eq_ok h
  rw [hmethod]
  exact (httpMethod_eq_ok hm).imp (congrArg Value.text) (congrArg Value.text)

/-! ## Documents -/

theorem mapFailure_eq_ok {α : Type} {f : Failure → Failure} {x : Except Failure α} {a : α} :
    (Outcome.mapFailure f (.ofExcept x)).result = .ok a ↔ x = .ok a := by
  cases x <;> simp [Outcome.mapFailure, Outcome.ofExcept, Except.mapError]

theorem readItems_cons_eq_ok {index : Nat} {item : Value} {items : List Value} {records : List ItemRecord} :
    (readItems index (item :: items)).result = .ok records ↔
      ∃ record rest, readItem item index = .ok record ∧ (readItems (index + 1) items).result = .ok rest ∧
        records = record :: rest := by
  rw [readItems, Outcome.bind_eq_ok]
  constructor
  · rintro ⟨record, hr, h⟩
    obtain ⟨_, _, h⟩ := Outcome.bind_eq_ok.1 h
    obtain ⟨rest, hrest, h⟩ := Outcome.bind_eq_ok.1 h
    cases h
    exact ⟨record, rest, mapFailure_eq_ok.1 hr, hrest, rfl⟩
  · rintro ⟨record, rest, hr, hrest, rfl⟩
    have ht : (record.notices.forM Outcome.tell).result = .ok () := by cases record <;> rfl
    exact ⟨record, mapFailure_eq_ok.2 hr, Outcome.bind_eq_ok.2 ⟨(), ht, Outcome.bind_eq_ok.2 ⟨rest, hrest, rfl⟩⟩⟩

/-- Items are read one by one. -/
theorem readItems_eq_ok : ∀ {items : List Value} {index : Nat} {records : List ItemRecord},
    (readItems index items).result = .ok records ↔
      (items.zipIdx index).mapM (fun e => readItem e.1 e.2) = .ok records
  | [], index, records => by
    constructor
    · intro h
      cases h
      rfl
    · intro h
      cases h
      rfl
  | item :: items, index, records => by
    have ih := @readItems_eq_ok items (index + 1)
    rw [List.zipIdx_cons, List.mapM_cons, readItems_cons_eq_ok, except_bind_eq_ok]
    simp only [except_bind_eq_ok, ih]
    constructor
    · rintro ⟨record, rest, hr, hrest, rfl⟩
      exact ⟨record, hr, rest, hrest, rfl⟩
    · rintro ⟨record, hr, rest, hrest, h⟩
      cases h
      exact ⟨record, rest, hr, hrest, rfl⟩

/-- Items are read exactly if each of them is. -/
theorem succeeds_readItems {items : List Value} {index : Nat} :
    (readItems index items).Succeeds ↔ ∀ e ∈ items.zipIdx index, Returns (readItem e.1 e.2) := by
  simp only [Outcome.Succeeds, readItems_eq_ok]
  exact returns_mapM

/-- A document is read exactly if it has an item list whose items are read. -/
theorem readInterface_eq_ok {raw contractName : Value} {i : Interface} :
    (readInterface raw contractName).result = .ok i ↔ ∃ items records, itemList? raw = some items ∧
      (readItems 0 items).result = .ok records ∧ i = .ofItems (contractNameOf raw contractName) records := by
  unfold readInterface
  cases hl : itemList? raw with
  | none =>
    refine iff_of_false (fun h => by cases h) ?_
    rintro ⟨items, records, h, _⟩
    cases h
  | some items =>
    constructor
    · intro h
      obtain ⟨records, hr, h⟩ := Outcome.bind_eq_ok.1 h
      cases h
      exact ⟨items, records, rfl, hr, rfl⟩
    · rintro ⟨items', records, h, hr, rfl⟩
      cases h
      exact Outcome.bind_eq_ok.2 ⟨records, hr, rfl⟩

theorem succeeds_readInterface {raw contractName : Value} {items : List Value} (hl : itemList? raw = some items) :
    (readInterface raw contractName).Succeeds ↔ ∀ e ∈ items.zipIdx, Returns (readItem e.1 e.2) := by
  rw [← succeeds_readItems]
  constructor
  · rintro ⟨i, h⟩
    obtain ⟨items', records, hl', hr, _⟩ := readInterface_eq_ok.1 h
    cases hl.symm.trans hl'
    exact ⟨records, hr⟩
  · rintro ⟨records, hr⟩
    exact ⟨_, readInterface_eq_ok.2 ⟨items, records, hl, hr, rfl⟩⟩

/-- Every record is what some item is read as. -/
theorem readFrom_of_readItems {items : List Value} {index : Nat} {records : List ItemRecord}
    (h : (readItems index items).result = .ok records) :
    ∀ record ∈ records, ∃ entries, .object entries ∈ items ∧ record.ReadFrom entries := by
  intro record hmem
  obtain ⟨e, he, hread⟩ := exists_of_mem_mapM (readItems_eq_ok.1 h) record hmem
  obtain ⟨entries, hitem, hfrom⟩ := readItem_eq_ok hread
  exact ⟨entries, hitem ▸ List.fst_mem_of_mem_zipIdx he, hfrom⟩

/-- Every record of a kind was read from an item, where `project` picks the records of the kind. -/
theorem readFrom_of_filterMap {α : Type} {project : ItemRecord → Option α} {inject : α → ItemRecord}
    (hp : ∀ record a, project record = some a → record = inject a) {items : List Value} {index : Nat}
    {records : List ItemRecord} (h : (readItems index items).result = .ok records) :
    ∀ a ∈ records.filterMap project, ∃ entries, .object entries ∈ items ∧ (inject a).ReadFrom entries := by
  intro a ha
  obtain ⟨record, hmem, hrecord⟩ := List.mem_filterMap.1 ha
  rw [← hp record a hrecord]
  exact readFrom_of_readItems h record hmem

theorem function?_eq_some (record : ItemRecord) (f : FunctionRecord) (h : record.function? = some f) :
    record = .function f := by
  cases record <;> cases h
  rfl

theorem event?_eq_some (record : ItemRecord) (e : EventRecord) (h : record.event? = some e) : record = .event e := by
  cases record <;> cases h
  rfl

theorem error?_eq_some (record : ItemRecord) (e : ErrorRecord) (h : record.error? = some e) : record = .error e := by
  cases record <;> cases h
  rfl

/-- All functions are read with one of two methods. -/
theorem httpMethod_of_readItems {items : List Value} {index : Nat} {records : List ItemRecord}
    (h : (readItems index items).result = .ok records) : ∀ f ∈ records.filterMap ItemRecord.function?,
      f.httpMethod = .text "GET" ∨ f.httpMethod = .text "POST" := by
  intro f hf
  obtain ⟨entries, _, _, hread⟩ := readFrom_of_filterMap function?_eq_some h f hf
  exact httpMethod_of_readFunction hread

/-! ## Notices -/

/-- Reading tells of nothing but items that are skipped. -/
theorem notices_readItems {n : Notice} : ∀ {items : List Value} {index : Nat}, n ∈ (readItems index items).notices →
    ∃ type, n = .itemSkipped type
  | [], _, h => absurd h List.not_mem_nil
  | item :: items, index, h => by
    rw [readItems] at h
    rcases Outcome.mem_notices_bind h with h | ⟨record, h⟩
    · cases h
    · rcases Outcome.mem_notices_bind h with h | ⟨_, h⟩
      · cases record with
        | skipped type => exact ⟨type, List.mem_singleton.1 h⟩
        | function _ | event _ | error _ => cases h
      · exact notices_readItems (Outcome.mem_notices_bind_pure.1 h)

theorem notices_readInterface {raw contractName : Value} {n : Notice}
    (h : n ∈ (readInterface raw contractName).notices) : ∃ type, n = .itemSkipped type := by
  unfold readInterface at h
  cases hl : itemList? raw with
  | none =>
    rw [hl] at h
    cases h
  | some items =>
    rw [hl] at h
    exact notices_readItems (Outcome.mem_notices_bind_pure.1 h)

/-! ## Failures -/

/-- Whether every failure comes to one of reading. -/
def FailsReading {α : Type} (x : Except Failure α) : Prop :=
  ∀ failure, x = .error failure → (inReading failure).stage = .reading

/-- Whether every failure is that of a value, wherever this stands. -/
def FailsAnywhere {α : Type} (x : Except Failure α) : Prop :=
  ∀ failure, x = .error failure → (∃ fault, failure = .fault fault) ∨ failure = .nestedTooDeep

section Failures

variable {α β : Type}

theorem failsAnywhere_ok (a : α) : FailsAnywhere (.ok a) := fun _ h => by cases h

theorem failsAnywhere_liftFault (x : Except Fault α) : FailsAnywhere (liftFault x) := by
  intro failure h
  cases x with
  | ok a => cases h
  | error fault =>
    cases h
    exact .inl ⟨fault, rfl⟩

theorem FailsAnywhere.bind {x : Except Failure α} {f : α → Except Failure β} (hx : FailsAnywhere x)
    (hf : ∀ a, FailsAnywhere (f a)) : FailsAnywhere (x >>= f) := by
  cases x with
  | error failure => exact fun failure' h => hx failure' (by cases h; rfl)
  | ok a => exact hf a

theorem FailsAnywhere.map {x : Except Failure α} (hx : FailsAnywhere x) (f : α → β) : FailsAnywhere (x.map f) := by
  cases x with
  | error failure => exact fun failure' h => hx failure' (by cases h; rfl)
  | ok a => exact failsAnywhere_ok _

theorem failsAnywhere_mapM {f : α → Except Failure β} (hf : ∀ a, FailsAnywhere (f a)) :
    ∀ l : List α, FailsAnywhere (l.mapM f)
  | [] => failsAnywhere_ok []
  | a :: l => by
    rw [List.mapM_cons]
    exact (hf a).bind fun b => (failsAnywhere_mapM hf l).bind fun bs => failsAnywhere_ok _

theorem failsAnywhere_readParametersWithin : ∀ (levels : Nat) (v : Value),
    FailsAnywhere (readParametersWithin levels v)
  | 0, v => by
    intro failure h
    cases h
    exact .inr rfl
  | levels + 1, v => by
    refine (failsAnywhere_liftFault _).bind fun elements => failsAnywhere_mapM (fun p => ?_) _
    refine (failsAnywhere_liftFault _).bind fun entries => (failsAnywhere_liftFault _).bind fun type => ?_
    simp only []
    split
    · exact FailsAnywhere.bind (failsAnywhere_ok _) fun components => failsAnywhere_ok _
    · exact ((failsAnywhere_readParametersWithin levels _).map _).bind fun components => failsAnywhere_ok _

theorem failsAnywhere_readItem (entries : List (Key × Value)) (index : Nat) :
    FailsAnywhere (readItem (.object entries) index) := by
  have hp := failsAnywhere_readParametersWithin (maxDepth + 1)
  have hl := fun {α : Type} => @failsAnywhere_liftFault α
  rw [readItem]
  split
  · refine FailsAnywhere.map ?_ _
    exact (hl _).bind fun _ => (hp _).bind fun _ => (hp _).bind fun _ => (hl _).bind fun _ => (hl _).bind fun _ =>
      (hl _).bind fun _ => failsAnywhere_ok _
  · refine FailsAnywhere.map ?_ _
    exact (hl _).bind fun _ => (hp _).bind fun _ => (hl _).bind fun _ => (hl _).bind fun _ => failsAnywhere_ok _
  · refine FailsAnywhere.map ?_ _
    exact (hp _).bind fun _ => (hl _).bind fun _ => (hl _).bind fun _ => failsAnywhere_ok _
  · exact failsAnywhere_ok _

theorem failsReading_readItem (item : Value) (index : Nat) : FailsReading (readItem item index) := by
  intro failure h
  cases item with
  | object entries =>
    rcases failsAnywhere_readItem entries index failure h with ⟨fault, rfl⟩ | rfl <;> rfl
  | _ =>
    cases h
    rfl

theorem stage_readItems : ∀ {items : List Value} {index : Nat} {failure : Failure},
    (readItems index items).result = .error failure → failure.stage = .reading
  | [], _, failure, h => by cases h
  | item :: items, index, failure, h => by
    rw [readItems] at h
    cases hi : readItem item index with
    | error failure' =>
      have hr : (Outcome.mapFailure inReading (.ofExcept (readItem item index))).result = .error (inReading failure') := by
        rw [hi]
        rfl
      rw [Outcome.bind_of_error hr] at h
      cases h
      exact failsReading_readItem item index failure' hi
    | ok record =>
      have ht : (record.notices.forM Outcome.tell).result = .ok () := by cases record <;> rfl
      rw [Outcome.bind_of_ok (mapFailure_eq_ok.2 hi), Outcome.bind_of_ok ht] at h
      cases hr : (readItems (index + 1) items).result with
      | error failure' =>
        rw [Outcome.bind_of_error hr] at h
        cases h
        exact stage_readItems hr
      | ok rest =>
        rw [Outcome.bind_of_ok hr] at h
        cases h

/-- A document that is not read fails as one that cannot be read. -/
theorem stage_readInterface {raw contractName : Value} {failure : Failure}
    (h : (readInterface raw contractName).result = .error failure) : failure.stage = .reading := by
  unfold readInterface at h
  split at h
  · cases h
    rfl
  · rename_i items _
    cases hr : (readItems 0 items).result with
    | error failure' =>
      rw [Outcome.bind_of_error hr] at h
      cases h
      exact stage_readItems hr
    | ok records =>
      rw [Outcome.bind_of_ok hr] at h
      cases h

end Failures

end ContractApi.Abi
