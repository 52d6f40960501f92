import ContractApi.Proofs.Recomputed
import ContractApi.Proofs.Results
/-!
# Documents with the same items

What a valid document is converted to depends on its functions, on its events and on its errors, each of the three in
their order. How the three are mixed with each other, and which constructors, fallbacks and receivers stand between
them, does not matter.

- What an item is read as does not depend on where it stands, so documents with the same items of a kind are read with
  the same records of the kind (`records_of_kind`). One of them is read exactly if the other is
  (`succeeds_readInterface_sameItems`).
- What is built from the records does not depend on the name of the contract, apart from the name itself
  (`buildDocument_renamed`).
- So two conversions give results of the same kind, and documents with the same paths and components
  (`convert_sameItems`).
-/

namespace ContractApi

open Abi OpenApi

/-! ## Items of a kind -/

/-- The items of a kind in a document. -/
def itemsOf (kind : ItemKind) (raw : Value) : List Value :=
  ((itemList? raw).getD []).filter (ItemKind.of · = kind)

/-- The kinds of items that are described. -/
def describedKinds : List ItemKind := [.function, .event, .error]

/-- Whether two documents have the same functions, the same events and the same errors, each in the same order. -/
def SameItems (raw raw' : Value) : Prop := ∀ kind ∈ describedKinds, itemsOf kind raw = itemsOf kind raw'

theorem SameItems.symm {raw raw' : Value} (h : SameItems raw raw') : SameItems raw' raw :=
  fun kind hk => (h kind hk).symm

/-- An item that is read at one place is read the same at any other. -/
theorem readItem_anywhere {item : Value} {index : Nat} {record : ItemRecord} (h : readItem item index = .ok record)
    (index' : Nat) : readItem item index' = .ok record := by
  obtain ⟨entries, rfl, _⟩ := readItem_eq_ok h
  exact h

section Kind

variable {α : Type} {project : ItemRecord → Option α} {kind : ItemKind}

/-- Whether this is what the projection picks of what an item is read as. -/
def IsReadAs (project : ItemRecord → Option α) (item : Value) (a : α) : Prop :=
  ∃ record, readItem item 0 = .ok record ∧ project record = some a

theorem isReadAs_unique : Relator.RightUnique (IsReadAs project) := by
  rintro item a a' ⟨record, hr, ha⟩ ⟨record', hr', ha'⟩
  cases hr.symm.trans hr'
  exact Option.some.inj (ha.symm.trans ha')

/-- Lists with the same items of a kind are read with the same records of the kind. -/
theorem records_of_kind (hp : Picks project kind) {items items' : List Value} {records records' : List ItemRecord}
    (h : items.filter (ItemKind.of · = kind) = items'.filter (ItemKind.of · = kind))
    (hr : (readItems 0 items).result = .ok records) (hr' : (readItems 0 items').result = .ok records') :
    records.filterMap project = records'.filterMap project := by
  have hread : ∀ {item index record a}, readItem item index = .ok record → project record = some a →
      IsReadAs project item a := fun hr ha => ⟨_, readItem_anywhere hr 0, ha⟩
  have hl := hp.forall₂ hread hr
  have hl' := hp.forall₂ hread hr'
  rw [← h] at hl'
  exact isReadAs_unique.forall₂ hl hl'

end Kind

/-! ## Reading -/

theorem itemsOf_eq {raw : Value} {items : List Value} (h : itemList? raw = some items) (kind : ItemKind) :
    itemsOf kind raw = items.filter (ItemKind.of · = kind) := by
  rw [itemsOf, h, Option.getD_some]

/-- The interfaces of two documents with the same items differ in the name of the contract only. -/
theorem readInterface_sameItems {raw raw' contractName contractName' : Value} {i i' : Interface}
    (h : SameItems raw raw') (hi : (readInterface raw contractName).result = .ok i)
    (hi' : (readInterface raw' contractName').result = .ok i') :
    i' = { i with contractName := contractNameOf raw' contractName' } := by
  obtain ⟨items, records, hl, hr, rfl⟩ := readInterface_eq_ok.1 hi
  obtain ⟨items', records', hl', hr', rfl⟩ := readInterface_eq_ok.1 hi'
  have hsame : ∀ kind ∈ describedKinds,
      items.filter (ItemKind.of · = kind) = items'.filter (ItemKind.of · = kind) := by
    intro kind hk
    rw [← itemsOf_eq hl, ← itemsOf_eq hl']
    exact h kind hk
  have hf := records_of_kind picks_functions (hsame .function (by decide)) hr hr'
  have he := records_of_kind picks_events (hsame .event (by decide)) hr hr'
  have hre := records_of_kind picks_errors (hsame .error (by decide)) hr hr'
  simp only [Interface.ofItems, hf, he, hre]

/-- An item that is not described is skipped, whatever else it holds. -/
theorem returns_readItem_of_other {entries : List (Key × Value)} (index : Nat)
    (h : ItemKind.of (.object entries) ∉ describedKinds) : Returns (readItem (.object entries) index) := by
  rw [readItem]
  cases hk : ItemKind.of (.object entries) <;> simp_all [describedKinds, returns_ok]

/-- Of two valid documents with the same items, one can be read if the other can. -/
theorem succeeds_readInterface_sameItems {raw raw' contractName contractName' : Value} (h : SameItems raw raw')
    (hv' : (validate raw').isValid = true) (hr : (readInterface raw contractName).Succeeds) :
    (readInterface raw' contractName').Succeeds := by
  obtain ⟨items', hl', hitems'⟩ := items_of_valid hv'
  obtain ⟨i, hi⟩ := hr
  obtain ⟨items, records, hl, hrecords, _⟩ := readInterface_eq_ok.1 hi
  refine (succeeds_readInterface hl').2 fun e he => ?_
  obtain ⟨item, index⟩ := e
  by_cases hk : ItemKind.of item ∈ describedKinds
  · -- The other document has the same item, perhaps elsewhere.
    have hmem : item ∈ itemsOf (ItemKind.of item) raw' := by
      rw [itemsOf_eq hl']
      exact List.mem_filter.2 ⟨List.fst_mem_of_mem_zipIdx he, decide_eq_true rfl⟩
    rw [← h _ hk, itemsOf_eq hl] at hmem
    obtain ⟨entries, record, index', rfl, _, _, hrecord⟩ := exists_read_of_kind hrecords hmem
    exact ⟨record, readItem_anywhere hrecord index⟩
  · cases item with
    | object entries => exact returns_readItem_of_other index hk
    | _ => cases hitems' _ he

/-! ## Describing -/

/-- The document of a contract of another name. -/
def renamed (name : Value) (d : Document) : Document := { d with contractName := name }

theorem enter_renamed (name : Value) (d : Document) (e : DocumentEntry) :
    e.enter (renamed name d) = renamed name <$> e.enter d := by
  have hcollides : e.collides (renamed name d) = e.collides d := by cases e <;> rfl
  have hwrite : e.write (renamed name d) = renamed name (e.write d) := by cases e <;> rfl
  refine Outcome.ext ?_ ?_
  · simp only [DocumentEntry.enter, Outcome.map_notices, hcollides]
  · exact congrArg Except.ok hwrite

/-- What is entered into a document does not depend on the name in it. -/
theorem enterAll_renamed (name : Value) (es : List (Outcome DocumentEntry)) (d : Document) :
    enterAll (renamed name d) es = renamed name <$> enterAll d es := by
  induction es generalizing d with
  | nil => simp [enterAll]
  | cons e rest ih => simp [enterAll, enter_renamed, ih]

theorem buildDocument_renamed (name : Value) (i : Interface) :
    buildDocument (.record { i with contractName := name }) = renamed name <$> buildDocument (.record i) :=
  enterAll_renamed name (documentEntries i) (.empty i.contractName)

theorem collisionsOf_renamed (name : Value) (i : Interface) :
    collisionsOf { i with contractName := name } = collisionsOf i := by
  rw [collisionsOf, buildDocument_renamed, Outcome.map_notices, collisionsOf]

theorem assemble_renamed {i : Interface} {strict : Value} {d : Document} (name : Value)
    (h : (assemble (.record i) strict).result = .ok d) :
    (assemble (.record { i with contractName := name }) strict).result = .ok (renamed name d) := by
  obtain ⟨hb, hc⟩ := assemble_eq_ok.1 h
  refine assemble_eq_ok.2 ⟨?_, fun hs => (collisionsOf_renamed name i).trans (hc hs)⟩
  rw [buildDocument_renamed]
  exact Outcome.map_eq_ok.2 ⟨d, hb, rfl⟩

theorem contractName_of_description {raw contractName strict : Value} {d : Document}
    (h : (description raw contractName strict).result = .ok d) : d.contractName = contractNameOf raw contractName := by
  obtain ⟨i, hi, hd⟩ := description_eq_ok.1 h
  obtain ⟨items, records, _, _, rfl⟩ := readInterface_eq_ok.1 hi
  rw [(buildDocument_eq_ok.1 (assemble_eq_ok.1 hd).1).2, foldl_write]
  rfl

/-- What describes a document describes another with the same items, up to the name. -/
theorem description_sameItems {raw raw' contractName contractName' strict : Value} {d : Document}
    (h : SameItems raw raw') (hv' : (validate raw').isValid = true)
    (hd : (description raw contractName strict).result = .ok d) :
    (description raw' contractName' strict).result = .ok (renamed (contractNameOf raw' contractName') d) := by
  obtain ⟨i, hi, ha⟩ := description_eq_ok.1 hd
  obtain ⟨i', hi'⟩ : (readInterface raw' contractName').Succeeds :=
    succeeds_readInterface_sameItems h hv' ⟨i, hi⟩
  obtain rfl := readInterface_sameItems h hi hi'
  exact description_eq_ok.2 ⟨_, hi', assemble_renamed _ ha⟩

/-! ## Converting -/

/-- A description with the given paths and components, of a contract of the given name. -/
def descriptionWith (name paths components : Value) : Value :=
  .object [("openapi", "3.0.0"),
    ("info", .object [("title", .text (name.display ++ " API")),
      ("description", .text ("API for interacting with the " ++ name.display ++ " smart contract")),
      ("version", "1.0.0")]),
    ("paths", paths), ("components", components)]

theorem itemsOfKind_items {c : Conversion} {items : List Value} (h : itemList? c.raw = some items) (kind : ItemKind) :
    itemsOfKind kind c.items = .ok (itemsOf kind c.raw) := by
  rw [Conversion.items, h, itemsOf_eq h]
  exact itemsOfKind_list kind items

/-- The selectors and the prototypes of the events are those of the items. -/
theorem selectors_sameItems {c c' : Conversion} (hv : (validate c.raw).isValid = true)
    (hv' : (validate c'.raw).isValid = true) (h : SameItems c.raw c'.raw) :
    c.selectors = c'.selectors ∧ c.eventDefinitions = c'.eventDefinitions := by
  obtain ⟨items, hl, _⟩ := items_of_valid hv
  obtain ⟨items', hl', _⟩ := items_of_valid hv'
  have hkind : ∀ kind ∈ describedKinds, itemsOfKind kind c.items = itemsOfKind kind c'.items := by
    intro kind hk
    rw [itemsOfKind_items hl, itemsOfKind_items hl', h kind hk]
  have hf := hkind .function (by decide)
  have he := hkind .event (by decide)
  have hr := hkind .error (by decide)
  constructor
  · simp only [Conversion.selectors, Selectors.of, hf, he, hr]
  · simp only [Conversion.eventDefinitions, eventPrototypes, he]

/-- Whether two results are of the same kind and, if they are descriptions, differ at most in the name of the contract
that they describe. -/
structure ConversionResult.SameBut (name name' : Value) (r r' : ConversionResult) : Prop where
  tag : r.tag = r'.tag
  document : r.tag = .success → ∃ paths components,
    r.document = descriptionWith name paths components ∧ r'.document = descriptionWith name' paths components
  equal : r.tag = .success → name = name' → r.document = r'.document

theorem sameBut_success (name : Value) (d : Document) :
    (ConversionResult.success d.toValue).SameBut d.contractName name (.success (renamed name d).toValue) where
  tag := rfl
  document := fun _ => ⟨_, _, rfl, rfl⟩
  equal := fun _ h => by rw [renamed, ← h]

theorem sameBut_failed (name name' : Value) (summary summary' cause cause' : Text) :
    (ConversionResult.failed summary cause).SameBut name name' (.failed summary' cause') where
  tag := rfl
  document := fun h => by cases h
  equal := fun h => by cases h

/-- What valid documents are converted to depends on their functions, their events and their errors only, up to the name
of the contract, and so do their selectors and the prototypes of their events. -/
theorem convert_sameItems {raw raw' : Value} (hv : (validate raw).isValid = true) (hv' : (validate raw').isValid = true)
    (h : SameItems raw raw') (contractName contractName' strict : Value) :
    (∃ r r', (convert raw contractName strict).result = .ok r ∧ (convert raw' contractName' strict).result = .ok r' ∧
      r.SameBut (contractNameOf raw contractName) (contractNameOf raw' contractName') r') ∧
    Conversion.selectors { raw, contractName, strict } =
      Conversion.selectors { raw := raw', contractName := contractName', strict } ∧
    Conversion.eventDefinitions { raw, contractName, strict } =
      Conversion.eventDefinitions { raw := raw', contractName := contractName', strict } := by
  have hn : ¬IsRejected raw := by simp [isRejected_iff, hv]
  have hn' : ¬IsRejected raw' := by simp [isRejected_iff, hv']
  refine ⟨?_, selectors_sameItems hv hv' h⟩
  cases hd : (description raw contractName strict).result with
  | ok d =>
    have hd' : (description raw' contractName' strict).result =
        .ok (renamed (contractNameOf raw' contractName') d) := description_sameItems h hv' hd
    refine ⟨_, _, convert_of_described hn hd, convert_of_described hn' hd', ?_⟩
    rw [← contractName_of_description hd]
    exact sameBut_success _ d
  | error failure =>
    cases hd' : (description raw' contractName' strict).result with
    | ok d' => cases hd.symm.trans (description_sameItems h.symm hv hd')
    | error failure' =>
      exact ⟨_, _, convert_of_failed hn hd, convert_of_failed hn' hd', sameBut_failed _ _ _ _ _ _⟩

/-- The items of a shop in another order, with a receiver in place of the fallback, and under a name. -/
def stall : Value := .object [("contractName", "Stall"), ("abi", .list [
  .object [("type", "receive")],
  .object [("type", "error"), ("name", .null)],
  .object [("type", "event"), ("name", "Paid"), ("anonymous", .bool false)],
  .object [("type", "constructor")],
  .object [("type", "function"), ("name", "order"), ("stateMutability", "payable"),
    ("inputs", .list [.object [("name", "goods"), ("type", "tuple"),
      ("components", .list [.object [("type", "uint8")]])]])]])]

theorem sameItems_shop_stall : SameItems shop stall := by
  intro kind hk
  simp only [describedKinds, List.mem_cons, List.not_mem_nil, or_false] at hk
  rcases hk with rfl | rfl | rfl <;> cbv

theorem convert_sameItems_shop : (∃ r r', (convert shop .null (.bool true)).result = .ok r ∧
      (convert stall .null (.bool true)).result = .ok r' ∧ r.SameBut "SmartContract" "Stall" r') ∧
    Conversion.selectors { raw := shop, contractName := .null, strict := .bool true } =
      Conversion.selectors { raw := stall, contractName := .null, strict := .bool true } ∧
    Conversion.eventDefinitions { raw := shop, contractName := .null, strict := .bool true } =
      Conversion.eventDefinitions { raw := stall, contractName := .null, strict := .bool true } :=
  convert_sameItems (by decide) (by decide) sameItems_shop_stall .null .null (.bool true)

end ContractApi
