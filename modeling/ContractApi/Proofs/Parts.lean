import ContractApi.Proofs.Describable
import ContractApi.Proofs.Entries
import Mathlib.Data.List.Nodup
import Mathlib.Tactic.Choose
/-!
# The parts of a description

The records of an interface contribute operations and schemas of four kinds. `Parts` holds what was made of each record,
with the proof that it was, so that the document is a plain function of the records (`Parts.document`).

- The name of a schema determines its kind and the name it was made from (`SchemaKind.key_inj`).
- `Parts` exist for well-formed records (`exists_parts`) and whenever a document was built (`exists_parts_of_built`).
- The document that is built is that of the parts (`Parts.buildDocument_eq`), and the places of its entries do not depend
  on the parts (`Parts.places_eq`).
-/

namespace ContractApi.OpenApi

open ContractApi.Abi

/-! ## Names of schemas -/

/-- The kinds of schema that a document has. -/
inductive SchemaKind where
  | request
  | response
  | event
  | error
deriving DecidableEq

namespace SchemaKind

/-- How the names of schemas of the kind end. -/
def ending : SchemaKind → Text
  | request => "Request"
  | response => "Response"
  | event => "Event"
  | error => "Error"

/-- The name of the schema of the kind for something with the name. -/
def key (kind : SchemaKind) (name : Text) : Text := name ++ kind.ending

/-- The last two letters tell the kinds apart. -/
theorem ending_inj {k k' : SchemaKind} (h : k.ending.reverse.take 2 = k'.ending.reverse.take 2) : k = k' := by
  revert h
  cases k <;> cases k' <;> decide

theorem take_key (k : SchemaKind) (n : Text) : (k.key n).reverse.take 2 = k.ending.reverse.take 2 := by
  rw [key, List.reverse_append, List.take_append_of_le_length]
  cases k <;> decide

/-- The name of a schema determines its kind and what it was made from. -/
theorem key_inj {k k' : SchemaKind} {n n' : Text} : k.key n = k'.key n' ↔ k = k' ∧ n = n' := by
  constructor
  · intro h
    have hk : k = k' := ending_inj (by rw [← take_key k n, ← take_key k' n', h])
    subst hk
    exact ⟨rfl, List.append_cancel_right h⟩
  · rintro ⟨rfl, rfl⟩
    rfl

end SchemaKind

/-- The name of a schema, from its kind and the name of what it describes. -/
def schemaKey (mention : SchemaKind × Text) : Text := mention.1.key mention.2

theorem schemaKey_inj (a b : SchemaKind × Text) (h : schemaKey a = schemaKey b) : a = b := by
  obtain ⟨hk, hn⟩ := SchemaKind.key_inj.1 h
  exact Prod.ext hk hn

/-- The path of a function determines its name. -/
theorem pathOf_inj {a b : Value} : pathOf a = pathOf b ↔ a.display = b.display := by
  simp [pathOf]

/-! ## What records contribute -/

/-- The method under which the operation of a function stands. -/
def methodKey (f : FunctionRecord) : Text :=
  match f.httpMethod with
  | .text method => method.lower
  | _ => []

/-- The schemas that a function contributes. -/
def functionMentions (f : FunctionRecord) : List (SchemaKind × Text) :=
  (if f.inputs.isPresent then [(.request, f.name.display)] else []) ++
    (if f.outputs.isPresent then [(.response, f.name.display)] else [])

/-- The schemas that functions, events and errors contribute, in order. -/
def mentions (fs : List FunctionRecord) (es : List EventRecord) (rs : List ErrorRecord) : List (SchemaKind × Text) :=
  fs.flatMap functionMentions ++ es.map (fun e => (.event, e.name.display)) ++
    rs.map (fun r => (.error, r.name.display))

/-- The places that a function contributes to. -/
def functionPlaces (f : FunctionRecord) : List Place :=
  .operation (pathOf f.name) (methodKey f) :: (functionMentions f).map fun m => .schema (schemaKey m)

/-- The places that functions, events and errors contribute to, in order. -/
def places (fs : List FunctionRecord) (es : List EventRecord) (rs : List ErrorRecord) : List Place :=
  fs.flatMap functionPlaces ++ es.map (fun e => .schema (SchemaKind.event.key e.name.display)) ++
    rs.map (fun r => .schema (SchemaKind.error.key r.name.display))

/-- What was made of each record, of the functions, events and errors given. -/
structure Parts (fs : List FunctionRecord) (es : List EventRecord) (rs : List ErrorRecord) where
  operation : FunctionRecord → Operation
  input : FunctionRecord → Schema
  output : FunctionRecord → Schema
  event : EventRecord → Schema
  error : ErrorRecord → Schema
  method : ∀ f ∈ fs, f.httpMethod.IsText
  operation_eq : ∀ f ∈ fs, (Operation.ofFunction (.record f)).result = .ok (operation f)
  input_eq : ∀ f ∈ fs, f.inputs.isPresent = true → (inputSchema (.record f)).result = .ok (input f)
  output_eq : ∀ f ∈ fs, f.outputs.isPresent = true → (outputSchema (.record f)).result = .ok (output f)
  event_eq : ∀ e ∈ es, (eventSchema (.record e)).result = .ok (event e)
  error_eq : ∀ r ∈ rs, (errorSchema (.record r)).result = .ok (error r)

namespace Parts

variable {fs : List FunctionRecord} {es : List EventRecord} {rs : List ErrorRecord} (parts : Parts fs es rs)

/-- The schemas that a function writes. -/
def functionSchemas (f : FunctionRecord) : List ((SchemaKind × Text) × Schema) :=
  (if f.inputs.isPresent then [((.request, f.name.display), parts.input f)] else []) ++
    (if f.outputs.isPresent then [((.response, f.name.display), parts.output f)] else [])

/-- The schemas that are written, in order. -/
def schemas : List ((SchemaKind × Text) × Schema) :=
  fs.flatMap parts.functionSchemas ++ es.map (fun e => ((.event, e.name.display), parts.event e)) ++
    rs.map (fun r => ((.error, r.name.display), parts.error r))

/-- The operations that are written, in order. -/
def operations : List (Text × Text × Operation) := fs.map fun f => (pathOf f.name, methodKey f, parts.operation f)

/-- The document that the parts make up. -/
def document (contractName : Value) : Document where
  contractName := contractName
  paths := Table.ofNested parts.operations
  schemas := Table.ofList (parts.schemas.map fun e => (schemaKey e.1, e.2))

/-- The entries that a function writes. -/
def functionEntry (f : FunctionRecord) : List DocumentEntry :=
  .operation (pathOf f.name) (methodKey f) (parts.operation f) ::
    (parts.functionSchemas f).map fun e => .schema (schemaKey e.1) e.2

/-- The entries that are written, in order. -/
def entries : List DocumentEntry :=
  fs.flatMap parts.functionEntry ++ es.map (fun e => .schema (SchemaKind.event.key e.name.display) (parts.event e)) ++
    rs.map (fun r => .schema (SchemaKind.error.key r.name.display) (parts.error r))

end Parts

/-! ## The entries of records -/

/-- Making the entry of an operation. -/
def operationEntry (f : FunctionRecord) : Outcome DocumentEntry := do
  return .operation (pathOf f.name) (methodKey f) (← Operation.ofFunction (.record f))

/-- Making the entry of a schema. -/
def schemaEntry (mention : SchemaKind × Text) (schema : Outcome Schema) : Outcome DocumentEntry := do
  return .schema (schemaKey mention) (← schema)

/-- Making the entry of a schema, if there is something to describe. -/
def schemaEntryIf (present : Bool) (mention : SchemaKind × Text) (schema : Outcome Schema) :
    List (Outcome DocumentEntry) := if present then [schemaEntry mention schema] else []

theorem functionEntries_eq {f : FunctionRecord} (h : f.httpMethod.IsText) : functionEntries (.record f) =
    operationEntry f ::
      (schemaEntryIf f.inputs.isPresent (.request, f.name.display) (inputSchema (.record f)) ++
        schemaEntryIf f.outputs.isPresent (.response, f.name.display) (outputSchema (.record f))) := by
  obtain ⟨m, hm⟩ := h
  simp only [functionEntries, operationEntry, methodKey, hm]
  rfl

theorem documentEntries_ofRecords (contractName : Value) (fs : List FunctionRecord) (es : List EventRecord)
    (rs : List ErrorRecord) : documentEntries (.ofRecords contractName fs es rs) =
      fs.flatMap (fun f => functionEntries (.record f)) ++ es.flatMap (fun e => eventEntries (.record e)) ++
        rs.flatMap (fun r => errorEntries (.record r)) := by
  simp only [documentEntries, Interface.ofRecords, slotsEntries, List.flatMap_map]

/-- A function whose operation can be made has a text for a method. -/
theorem method_of_succeeds {f : FunctionRecord} (h : ∀ o ∈ functionEntries (.record f), o.Succeeds) :
    f.httpMethod.IsText := by
  cases hm : f.httpMethod with
  | text m => exact ⟨m, rfl⟩
  | null | bool _ | int _ | float _ | list _ | object _ =>
    simp only [functionEntries, hm] at h
    obtain ⟨e, he⟩ := h _ List.mem_cons_self
    cases he

theorem tame_functionEntries : ∀ s : Slot FunctionRecord, ∀ o ∈ functionEntries s, o.Tame
  | .record f, o, ho => by
    simp only [functionEntries, List.mem_cons, List.mem_append] at ho
    rcases ho with (rfl | ho) | ho
    · split
      · exact (tame_operation _).bind fun _ => Outcome.tame_pure _
      · exact Outcome.tame_fault _
    · split at ho
      · rw [List.mem_singleton.1 ho]
        exact (tame_inputSchema _).bind fun _ => Outcome.tame_pure _
      · cases ho
    · split at ho
      · rw [List.mem_singleton.1 ho]
        exact (tame_outputSchema _).bind fun _ => Outcome.tame_pure _
      · cases ho
  | .stray v, o, ho => by
    rw [List.mem_singleton.1 ho]
    exact Outcome.tame_fault _

theorem tame_eventEntries : ∀ s : Slot EventRecord, ∀ o ∈ eventEntries s, o.Tame
  | .record e, o, ho => by
    rw [List.mem_singleton.1 ho]
    exact (tame_eventSchema _).bind fun _ => Outcome.tame_pure _
  | .stray v, o, ho => by
    rw [List.mem_singleton.1 ho]
    exact Outcome.tame_fault _

theorem tame_errorEntries : ∀ s : Slot ErrorRecord, ∀ o ∈ errorEntries s, o.Tame
  | .record r, o, ho => by
    rw [List.mem_singleton.1 ho]
    exact (tame_errorSchema _).bind fun _ => Outcome.tame_pure _
  | .stray v, o, ho => by
    rw [List.mem_singleton.1 ho]
    exact Outcome.tame_fault _

theorem tame_slotsEntries {α : Type} {entries : Slot α → List (Outcome DocumentEntry)}
    (h : ∀ s, ∀ o ∈ entries s, o.Tame) (slots : Slots α) : ∀ o ∈ slotsEntries entries slots, o.Tame := by
  intro o ho
  cases slots with
  | list slots =>
    obtain ⟨s, _, ho⟩ := List.mem_flatMap.1 ho
    exact h s o ho
  | stray v =>
    simp only [slotsEntries] at ho
    split at ho
    · obtain ⟨e, _, ho⟩ := List.mem_flatMap.1 ho
      exact h _ o ho
    · rw [List.mem_singleton.1 ho]
      exact Outcome.tame_fault _

/-- Whatever is entered tells of nothing but types that lie too deep, and fails only for a value that is not what is
needed. -/
theorem tame_documentEntries (i : Interface) : ∀ o ∈ documentEntries i, o.Tame := by
  intro o ho
  simp only [documentEntries, List.mem_append] at ho
  rcases ho with (ho | ho) | ho
  · exact tame_slotsEntries tame_functionEntries _ o ho
  · exact tame_slotsEntries tame_eventEntries _ o ho
  · exact tame_slotsEntries tame_errorEntries _ o ho

theorem quiet_documentEntries (contractName : Value) (fs : List FunctionRecord) (es : List EventRecord)
    (rs : List ErrorRecord) : ∀ o ∈ documentEntries (.ofRecords contractName fs es rs), o.Quiet :=
  fun o ho => (tame_documentEntries _ o ho).quiet

theorem succeeds_schemaEntryIf {present : Bool} {m : SchemaKind × Text} {x : Outcome Schema} :
    (∀ o ∈ schemaEntryIf present m x, o.Succeeds) ↔ (present = true → x.Succeeds) := by
  cases present with
  | false => exact iff_of_true (fun o ho => absurd ho List.not_mem_nil) fun h => by cases h
  | true =>
    simp only [schemaEntryIf, if_true, List.forall_mem_singleton, true_implies]
    exact Outcome.succeeds_bind_pure

theorem values_schemaEntryIf (present : Bool) (m : SchemaKind × Text) {x : Outcome Schema} {s : Schema}
    (h : present = true → x.result = .ok s) :
    (∀ o ∈ schemaEntryIf present m x, o.Succeeds) ∧ (schemaEntryIf present m x).filterMap Outcome.value? =
      (if present then [(m, s)] else []).map fun e => .schema (schemaKey e.1) e.2 := by
  cases present with
  | false => exact ⟨fun o ho => absurd ho List.not_mem_nil, rfl⟩
  | true =>
    have he : (schemaEntry m x).result = .ok (.schema (schemaKey m) s) := Outcome.bind_pure_eq_ok (h rfl)
    refine ⟨fun o ho => ?_, ?_⟩
    · rw [List.mem_singleton.1 ho]
      exact ⟨_, he⟩
    · exact List.filterMap_cons_some (Outcome.value?_eq_some.2 he)

theorem operationEntry_eq {f : FunctionRecord} {o : Operation} (h : (Operation.ofFunction (.record f)).result = .ok o) :
    (operationEntry f).result = .ok (.operation (pathOf f.name) (methodKey f) o) :=
  Outcome.bind_pure_eq_ok h

/-! ## Parts exist -/

section Existence

variable {fs : List FunctionRecord} {es : List EventRecord} {rs : List ErrorRecord}

instance : Inhabited Operation := ⟨⟨[], [], [], .empty, none⟩⟩

instance : Inhabited Schema := ⟨.string⟩

/-- Parts exist if everything can be made of every record. -/
theorem exists_parts_of_succeeds (hm : ∀ f ∈ fs, f.httpMethod.IsText)
    (ho : ∀ f ∈ fs, (Operation.ofFunction (.record f)).Succeeds)
    (hi : ∀ f ∈ fs, f.inputs.isPresent = true → (inputSchema (.record f)).Succeeds)
    (hr : ∀ f ∈ fs, f.outputs.isPresent = true → (outputSchema (.record f)).Succeeds)
    (he : ∀ e ∈ es, (eventSchema (.record e)).Succeeds) (hx : ∀ r ∈ rs, (errorSchema (.record r)).Succeeds) :
    Nonempty (Parts fs es rs) := by
  choose! operation operation_eq using ho
  choose! input input_eq using hi
  choose! output output_eq using hr
  choose! event event_eq using he
  choose! error error_eq using hx
  exact ⟨⟨operation, input, output, event, error, hm, operation_eq, input_eq, output_eq, event_eq, error_eq⟩⟩

/-- Well-formed records have parts. -/
theorem exists_parts (hf : ∀ f ∈ fs, f.WellFormed) (he : ∀ e ∈ es, e.WellFormed) (hr : ∀ r ∈ rs, r.WellFormed) :
    Nonempty (Parts fs es rs) := by
  refine exists_parts_of_succeeds ?_ ?_ ?_ ?_ ?_ ?_
  · intro f h
    rcases (hf f h).method with hm | hm
    · exact ⟨_, hm⟩
    · exact ⟨_, hm⟩
  · exact fun f h => (succeeds_operation (hf f h).inputs.describable).2 (hf f h).name
  · intro f h _
    have hi := (hf f h).inputs.describable
    exact (succeeds_inputSchema hi.exists_list).2 hi
  · intro f h _
    have ho := (hf f h).outputs.describable
    exact (succeeds_outputSchema ho.exists_list).2 ho
  · intro e h
    have hi := (he e h).inputs.describable
    exact (succeeds_eventSchema hi.exists_list).2 hi
  · intro r h
    have hi := (hr r h).inputs.describable
    exact (succeeds_errorSchema hi.exists_list).2 hi

/-- Whatever document was built, its records have parts. -/
theorem exists_parts_of_built {contractName : Value} {d : Document}
    (h : (buildDocument (.record (.ofRecords contractName fs es rs))).result = .ok d) : Nonempty (Parts fs es rs) := by
  -- whatever was entered had been made before
  have hs := (buildDocument_eq_ok.1 h).1
  rw [documentEntries_ofRecords] at hs
  have hf : ∀ f ∈ fs, ∀ o ∈ functionEntries (.record f), o.Succeeds := fun f hf o ho =>
    hs o (List.mem_append_left _ (List.mem_append_left _ (List.mem_flatMap.2 ⟨f, hf, ho⟩)))
  have he : ∀ e ∈ es, ∀ o ∈ eventEntries (.record e), o.Succeeds := fun e he o ho =>
    hs o (List.mem_append_left _ (List.mem_append_right _ (List.mem_flatMap.2 ⟨e, he, ho⟩)))
  have hr : ∀ r ∈ rs, ∀ o ∈ errorEntries (.record r), o.Succeeds := fun r hr o ho =>
    hs o (List.mem_append_right _ (List.mem_flatMap.2 ⟨r, hr, ho⟩))
  have hm : ∀ f ∈ fs, f.httpMethod.IsText := fun f h => method_of_succeeds (hf f h)
  have hs' := fun f h => functionEntries_eq (hm f h) ▸ hf f h
  refine exists_parts_of_succeeds hm ?_ ?_ ?_ ?_ ?_
  · exact fun f h => Outcome.succeeds_bind_pure.1 (hs' f h _ List.mem_cons_self)
  · exact fun f h => succeeds_schemaEntryIf.1 fun o ho =>
      hs' f h o (List.mem_cons_of_mem _ (List.mem_append_left _ ho))
  · exact fun f h => succeeds_schemaEntryIf.1 fun o ho =>
      hs' f h o (List.mem_cons_of_mem _ (List.mem_append_right _ ho))
  · exact fun e h => Outcome.succeeds_bind_pure.1 (he e h _ (List.mem_singleton.2 rfl))
  · exact fun r h => Outcome.succeeds_bind_pure.1 (hr r h _ (List.mem_singleton.2 rfl))

end Existence

/-! ## The document of the parts -/

namespace Parts

variable {fs : List FunctionRecord} {es : List EventRecord} {rs : List ErrorRecord} (parts : Parts fs es rs)

/-- What a function enters is made of its parts. -/
theorem values_functionEntries {f : FunctionRecord} (hf : f ∈ fs) :
    (∀ o ∈ functionEntries (.record f), o.Succeeds) ∧
      (functionEntries (.record f)).filterMap Outcome.value? = parts.functionEntry f := by
  have ho := operationEntry_eq (parts.operation_eq f hf)
  obtain ⟨hi, hi'⟩ := values_schemaEntryIf _ (.request, f.name.display) (parts.input_eq f hf)
  obtain ⟨hr, hr'⟩ := values_schemaEntryIf _ (.response, f.name.display) (parts.output_eq f hf)
  rw [functionEntries_eq (parts.method f hf)]
  constructor
  · intro o hmem
    rcases List.mem_cons.1 hmem with rfl | hmem
    · exact ⟨_, ho⟩
    · exact (List.mem_append.1 hmem).elim (hi o) (hr o)
  · rw [List.filterMap_cons_some (Outcome.value?_eq_some.2 ho), List.filterMap_append, hi', hr', functionEntry,
      functionSchemas, List.map_append]

theorem values_eventEntries {e : EventRecord} (he : e ∈ es) :
    (∀ o ∈ eventEntries (.record e), o.Succeeds) ∧ (eventEntries (.record e)).filterMap Outcome.value? =
      [.schema (SchemaKind.event.key e.name.display) (parts.event e)] :=
  values_schemaEntryIf true (.event, e.name.display) fun _ => parts.event_eq e he

theorem values_errorEntries {r : ErrorRecord} (hr : r ∈ rs) :
    (∀ o ∈ errorEntries (.record r), o.Succeeds) ∧ (errorEntries (.record r)).filterMap Outcome.value? =
      [.schema (SchemaKind.error.key r.name.display) (parts.error r)] :=
  values_schemaEntryIf true (.error, r.name.display) fun _ => parts.error_eq r hr

/-- What the records enter is made of the parts. -/
theorem values_documentEntries (contractName : Value) :
    (∀ o ∈ documentEntries (.ofRecords contractName fs es rs), o.Succeeds) ∧
      (documentEntries (.ofRecords contractName fs es rs)).filterMap Outcome.value? = parts.entries := by
  rw [documentEntries_ofRecords]
  constructor
  · intro o ho
    simp only [List.mem_append, List.mem_flatMap] at ho
    rcases ho with (⟨f, hf, ho⟩ | ⟨e, he, ho⟩) | ⟨r, hr, ho⟩
    · exact (parts.values_functionEntries hf).1 o ho
    · exact (parts.values_eventEntries he).1 o ho
    · exact (parts.values_errorEntries hr).1 o ho
  · rw [List.filterMap_append, List.filterMap_append, List.filterMap_flatMap, List.filterMap_flatMap,
      List.filterMap_flatMap, List.flatMap_congr fun f hf => (parts.values_functionEntries hf).2,
      List.flatMap_congr fun e he => (parts.values_eventEntries he).2,
      List.flatMap_congr fun r hr => (parts.values_errorEntries hr).2, ← List.map_eq_flatMap, ← List.map_eq_flatMap,
      entries]

theorem operations_entries : parts.entries.filterMap DocumentEntry.operation? = parts.operations := by
  have hf : ∀ f, (parts.functionEntry f).filterMap DocumentEntry.operation? =
      [(pathOf f.name, methodKey f, parts.operation f)] := by
    intro f
    rw [functionEntry, List.filterMap_cons, List.filterMap_map]
    simp [Function.comp_def, DocumentEntry.operation?]
  rw [entries, List.filterMap_append, List.filterMap_append, List.filterMap_flatMap, List.flatMap_congr fun f _ => hf f,
    ← List.map_eq_flatMap, operations, List.filterMap_map, List.filterMap_map]
  simp [Function.comp_def, DocumentEntry.operation?]

theorem schemas_entries : parts.entries.filterMap DocumentEntry.schema? =
    parts.schemas.map fun e => (schemaKey e.1, e.2) := by
  have hf : ∀ f, (parts.functionEntry f).filterMap DocumentEntry.schema? =
      (parts.functionSchemas f).map fun e => (schemaKey e.1, e.2) := by
    intro f
    rw [functionEntry, List.filterMap_cons, List.filterMap_map]
    simp [Function.comp_def, DocumentEntry.schema?]
  rw [entries, List.filterMap_append, List.filterMap_append, List.filterMap_flatMap, List.flatMap_congr fun f _ => hf f,
    schemas, List.map_append, List.map_append, List.map_flatMap, List.filterMap_map, List.filterMap_map]
  simp [Function.comp_def, DocumentEntry.schema?, schemaKey]

/-- The document that is built is that of the parts. -/
theorem buildDocument_eq (contractName : Value) :
    (buildDocument (.record (.ofRecords contractName fs es rs))).result = .ok (parts.document contractName) := by
  obtain ⟨hs, hv⟩ := parts.values_documentEntries contractName
  refine buildDocument_eq_ok.2 ⟨hs, ?_⟩
  rw [hv, foldl_write, parts.operations_entries, parts.schemas_entries]
  rfl

theorem map_functionSchemas (f : FunctionRecord) :
    (parts.functionSchemas f).map (·.1) = functionMentions f := by
  unfold functionSchemas functionMentions
  split <;> split <;> rfl

/-- What is written to the schemas is what the records contribute. -/
theorem map_schemas : parts.schemas.map (·.1) = mentions fs es rs := by
  rw [schemas, List.map_append, List.map_append, List.map_flatMap, List.flatMap_congr fun f _ => parts.map_functionSchemas f,
    List.map_map, List.map_map]
  rfl

/-- The places of the entries are those that the records contribute to. -/
theorem places_eq : parts.entries.map DocumentEntry.place = places fs es rs := by
  have hf : ∀ f, (parts.functionEntry f).map DocumentEntry.place = functionPlaces f := by
    intro f
    rw [functionEntry, List.map_cons, List.map_map, functionPlaces, ← parts.map_functionSchemas, List.map_map]
    rfl
  rw [entries, List.map_append, List.map_append, List.map_flatMap, List.flatMap_congr fun f _ => hf f, List.map_map,
    List.map_map]
  rfl

/-- What collides is what the records contribute to repeatedly. -/
theorem collisionsOf_eq (parts : Parts fs es rs) (contractName : Value) :
    collisionsOf (.ofRecords contractName fs es rs) = (repeats (places fs es rs)).map Place.collisionName := by
  obtain ⟨hs, hv⟩ := parts.values_documentEntries contractName
  rw [← parts.places_eq, ← hv, ← entered_of_succeeds hs]
  refine collisions_enterAll (quiet_documentEntries contractName fs es rs) fun p => ?_
  simp [not_occupied_empty]

end Parts

end ContractApi.OpenApi
