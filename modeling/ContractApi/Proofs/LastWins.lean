import ContractApi.Proofs.Parts
/-!
# The last one wins

- `lastWins?` is the document in which every place holds what was made of the last record that contributes to it, with
  the places in the order in which the records first contribute to them.
- Under a path and a method stands the operation of the last function with them (`Parts.get?_paths`), and under the name
  of a schema what was made of the last record that contributes one of that name (`Parts.get?_schemas`).
- Assembly that is not strict returns that document and reports every repetition, once each (`assemble_lastWins`).
-/

namespace ContractApi.OpenApi

open ContractApi.Abi

/-! ## Operations -/

def lastFunction? (fs : List FunctionRecord) (path method : Text) : Option FunctionRecord :=
  fs.findRev? fun f => pathOf f.name = path ∧ methodKey f = method

theorem lastFunction?_some {fs : List FunctionRecord} {path method : Text} {f : FunctionRecord}
    (h : lastFunction? fs path method = some f) : f ∈ fs ∧ pathOf f.name = path ∧ methodKey f = method :=
  ⟨Table.mem_of_findRev? h, by simpa using Table.findRev?_some h⟩

namespace Parts

variable {fs : List FunctionRecord} {es : List EventRecord} {rs : List ErrorRecord} (parts : Parts fs es rs)

/-- Under a path and a method stands the operation of the last function with them. -/
theorem get?_paths (contractName : Value) (path method : Text) :
    (Table.get? path (parts.document contractName).paths).bind (Table.get? method) =
      (lastFunction? fs path method).map parts.operation := by
  rw [document, Table.get?_get?_ofNested, operations, Table.findRev?_map, Option.map_map]
  rfl

/-- Every operation of the document is that of the last function with its path and method. -/
theorem mem_paths {contractName : Value} {path method : Text} {operations : Table Text Operation} {o : Operation}
    (hp : (path, operations) ∈ (parts.document contractName).paths) (ho : (method, o) ∈ operations) :
    ∃ f, lastFunction? fs path method = some f ∧ o = parts.operation f := by
  have h := Table.get?_get?_of_mem_ofNested hp ho
  change (Table.get? path (parts.document contractName).paths).bind (Table.get? method) = some o at h
  rw [get?_paths] at h
  obtain ⟨f, hf, rfl⟩ := Option.map_eq_some_iff.1 h
  exact ⟨f, hf, rfl⟩

end Parts

def lastOperation? (fs : List FunctionRecord) (path method : Text) : Option Operation :=
  (lastFunction? fs path method).bind fun f => (Operation.ofFunction (.record f)).value?

/-- The methods of the functions with the path, in the order of their first occurrence. -/
def methodsAt (fs : List FunctionRecord) (path : Text) : List Text :=
  Table.firsts ((fs.filter fun f => pathOf f.name = path).map methodKey)

/-- The last operations under every path, in the order in which paths and methods first occur. -/
def lastPaths? (fs : List FunctionRecord) : Option (Table Text (Table Text Operation)) :=
  (Table.firsts (fs.map fun f => pathOf f.name)).mapM fun path => do
    return (path, ← (methodsAt fs path).mapM fun method => do return (method, ← lastOperation? fs path method))

/-! ## Schemas -/

/-- The schema of the last record that contributes one of the kind for the name. -/
def lastSchema? (fs : List FunctionRecord) (es : List EventRecord) (rs : List ErrorRecord) :
    SchemaKind × Text → Option Schema
  | (.request, name) =>
    (fs.findRev? fun f => f.name.display = name ∧ f.inputs.isPresent).bind fun f => (inputSchema (.record f)).value?
  | (.response, name) =>
    (fs.findRev? fun f => f.name.display = name ∧ f.outputs.isPresent).bind fun f => (outputSchema (.record f)).value?
  | (.event, name) => (es.findRev? fun e => e.name.display = name).bind fun e => (eventSchema (.record e)).value?
  | (.error, name) => (rs.findRev? fun r => r.name.display = name).bind fun r => (errorSchema (.record r)).value?

/-- The last schemas of every kind, in the order in which they are first contributed. -/
def lastSchemas? (fs : List FunctionRecord) (es : List EventRecord) (rs : List ErrorRecord) :
    Option (Table Text Schema) :=
  (Table.firsts (mentions fs es rs)).mapM fun m => do return (schemaKey m, ← lastSchema? fs es rs m)

/-- The document in which the last record wins every place. -/
def lastWins? (contractName : Value) (fs : List FunctionRecord) (es : List EventRecord) (rs : List ErrorRecord) :
    Option Document := do
  return ⟨contractName, ← lastPaths? fs, ← lastSchemas? fs es rs⟩

namespace Parts

variable {fs : List FunctionRecord} {es : List EventRecord} {rs : List ErrorRecord} (parts : Parts fs es rs)

theorem lastOperation?_eq (path method : Text) :
    lastOperation? fs path method = (lastFunction? fs path method).map parts.operation :=
  Table.bind_findRev? fun f hf _ => Outcome.value?_eq_some.2 (parts.operation_eq f hf)

/-- The methods under a path hold the last operations. -/
theorem lastMethods {path : Text} (h : path ∈ fs.map fun f => pathOf f.name) :
    ((methodsAt fs path).mapM fun method => do return (method, ← lastOperation? fs path method)) =
      Table.get? path (Table.ofNested parts.operations) := by
  have hp : path ∈ parts.operations.map (·.1) := by
    rw [operations, List.map_map]
    exact h
  have ht := Table.get?_ofNested hp
  have hk : ((parts.operations.filter fun e => e.1 = path).map (·.2)).map (·.1) =
      (fs.filter fun f => pathOf f.name = path).map methodKey := by
    rw [operations, List.filter_map, List.map_map, List.map_map]
    rfl
  rw [ht]
  refine Table.mapM_get? ?_ (Table.nodup_keys_ofList _) fun method _ => ?_
  · rw [Table.keys_ofList, hk, List.map_id', methodsAt]
  · have hg := parts.get?_paths .null path method
    rw [lastOperation?_eq, ← hg, document, ht, Option.bind_some]

/-- The paths hold the last operations. -/
theorem lastPaths?_eq : lastPaths? fs = some (Table.ofNested parts.operations) := by
  refine Table.mapM_get? ?_ (Table.nodup_keys_ofNested _) fun path h => ?_
  · rw [Table.keys_ofNested, List.map_id', operations, List.map_map]
    rfl
  · exact parts.lastMethods (Table.mem_firsts.1 h)

/-- Schemas of one kind are found by the names they were made for, and not among those of another kind. -/
theorem findRev?_kind {α : Type} (kind kind' : SchemaKind) (name : Text) (nameOf : α → Text) (make : α → Schema)
    (l : List α) : (l.map fun a => ((kind, nameOf a), make a)).findRev? (fun e => e.1 = (kind', name)) =
      if kind = kind' then (l.findRev? fun a => nameOf a = name).map fun a => ((kind, nameOf a), make a) else none := by
  rw [Table.findRev?_map]
  by_cases h : kind = kind'
  · subst h
    simp [Function.comp_def]
  · rw [if_neg h, Option.map_eq_none_iff, Table.findRev?_eq_none]
    simp [h]

theorem findRev?_request (name : Text) :
    (fs.flatMap parts.functionSchemas).findRev? (fun e => e.1 = (.request, name)) =
      (fs.findRev? fun f => f.name.display = name ∧ f.inputs.isPresent).map
        fun f => ((.request, f.name.display), parts.input f) := by
  refine Table.findRev?_flatMap fun f => ?_
  cases hi : f.inputs.isPresent <;> cases ho : f.outputs.isPresent <;>
    by_cases hn : f.name.display = name <;> simp [functionSchemas, hi, ho, hn]

theorem findRev?_response (name : Text) :
    (fs.flatMap parts.functionSchemas).findRev? (fun e => e.1 = (.response, name)) =
      (fs.findRev? fun f => f.name.display = name ∧ f.outputs.isPresent).map
        fun f => ((.response, f.name.display), parts.output f) := by
  refine Table.findRev?_flatMap fun f => ?_
  cases hi : f.inputs.isPresent <;> cases ho : f.outputs.isPresent <;>
    by_cases hn : f.name.display = name <;> simp [functionSchemas, hi, ho, hn]

/-- Functions contribute no schemas of other kinds. -/
theorem findRev?_other {kind : SchemaKind} (hq : kind ≠ .request) (hr : kind ≠ .response) (name : Text) :
    (fs.flatMap parts.functionSchemas).findRev? (fun e => e.1 = (kind, name)) = none := by
  refine Table.findRev?_eq_none.2 fun e he h => ?_
  obtain ⟨f, _, he⟩ := List.mem_flatMap.1 he
  have hm : (kind, name) ∈ functionMentions f := by
    rw [← parts.map_functionSchemas, ← of_decide_eq_true h]
    exact List.mem_map_of_mem he
  rcases List.mem_append.1 hm with hm | hm <;> split at hm
  · exact hq (Prod.mk.inj (List.mem_singleton.1 hm)).1
  · cases hm
  · exact hr (Prod.mk.inj (List.mem_singleton.1 hm)).1
  · cases hm

/-- What is found among the schemas that are written is what the last record made of it. -/
theorem lastSchema?_eq (m : SchemaKind × Text) :
    lastSchema? fs es rs m = (parts.schemas.findRev? fun e => e.1 = m).map (·.2) := by
  obtain ⟨kind, name⟩ := m
  rw [schemas, Table.findRev?_append, Table.findRev?_append, findRev?_kind .error kind name (·.name.display) parts.error,
    findRev?_kind .event kind name (·.name.display) parts.event]
  cases kind with
  | request =>
    have hv : ∀ f ∈ fs, decide (f.name.display = name ∧ f.inputs.isPresent = true) = true →
        (inputSchema (.record f)).value? = some (parts.input f) := fun f hf h =>
      Outcome.value?_eq_some.2 (parts.input_eq f hf (of_decide_eq_true h).2)
    rw [lastSchema?, Table.bind_findRev? hv, findRev?_request]
    simp [Function.comp_def]
  | response =>
    have hv : ∀ f ∈ fs, decide (f.name.display = name ∧ f.outputs.isPresent = true) = true →
        (outputSchema (.record f)).value? = some (parts.output f) := fun f hf h =>
      Outcome.value?_eq_some.2 (parts.output_eq f hf (of_decide_eq_true h).2)
    rw [lastSchema?, Table.bind_findRev? hv, findRev?_response]
    simp [Function.comp_def]
  | event =>
    have hv : ∀ e ∈ es, decide (e.name.display = name) = true →
        (eventSchema (.record e)).value? = some (parts.event e) := fun e he _ =>
      Outcome.value?_eq_some.2 (parts.event_eq e he)
    rw [lastSchema?, Table.bind_findRev? hv, parts.findRev?_other (by decide) (by decide)]
    simp [Function.comp_def]
  | error =>
    have hv : ∀ r ∈ rs, decide (r.name.display = name) = true →
        (errorSchema (.record r)).value? = some (parts.error r) := fun r hr _ =>
      Outcome.value?_eq_some.2 (parts.error_eq r hr)
    rw [lastSchema?, Table.bind_findRev? hv, parts.findRev?_other (by decide) (by decide)]
    simp [Function.comp_def]

/-- Under the name of a schema stands what was made of the last record that contributes one of that name. -/
theorem get?_schemas (contractName : Value) (m : SchemaKind × Text) :
    Table.get? (schemaKey m) (parts.document contractName).schemas = lastSchema? fs es rs m := by
  have hk : (fun e : Text × Schema => decide (e.1 = schemaKey m)) ∘ (fun e => (schemaKey e.1, e.2)) =
      fun e : (SchemaKind × Text) × Schema => decide (e.1 = m) := by
    funext e
    exact decide_eq_decide.2 ⟨schemaKey_inj _ _, congrArg schemaKey⟩
  rw [document, Table.get?_ofList, Table.findRev?_map, hk, Option.map_map, lastSchema?_eq]
  rfl

/-- The schemas are the last ones. -/
theorem lastSchemas?_eq (contractName : Value) :
    lastSchemas? fs es rs = some (parts.document contractName).schemas := by
  refine Table.mapM_get? ?_ (Table.nodup_keys_ofList _) fun m _ => (parts.get?_schemas contractName m).symm
  rw [document, Table.keys_ofList, List.map_map, ← Table.firsts_map schemaKey_inj, ← parts.map_schemas,
    List.map_map]
  rfl

/-- The document of the parts is the one in which the last record wins. -/
theorem lastWins?_eq (contractName : Value) : lastWins? contractName fs es rs = some (parts.document contractName) := by
  rw [lastWins?, parts.lastPaths?_eq, parts.lastSchemas?_eq contractName]
  rfl

end Parts

/-! ## Assembly -/

/-- Assembly that is not strict returns the document in which the last record wins. Every write to a place that was
written before is kept as a collision and told of once, and nothing else is told of but types that lie too deep. -/
theorem assemble_lastWins {contractName : Value} {fs : List FunctionRecord} {es : List EventRecord}
    {rs : List ErrorRecord} (hf : ∀ f ∈ fs, f.WellFormed) (he : ∀ e ∈ es, e.WellFormed)
    (hr : ∀ r ∈ rs, r.WellFormed) :
    let parsed := Slot.record (Interface.ofRecords contractName fs es rs)
    let rewritten := (repeats (places fs es rs)).map Place.collisionName
    (∃ d, lastWins? contractName fs es rs = some d ∧ (assemble parsed (.bool false)).result = .ok d) ∧
      (Assembler.build { parsed, strict := .bool false }).2.collisions = rewritten ∧
      ((assemble parsed (.bool false)).notices.filter fun n => fromAssembler n) = rewritten.map .overwriting ∧
      ∀ n ∈ (assemble parsed (.bool false)).notices, n.level = .warning ∧
        (fromAssembler n ∨ ∃ type, n = .typeTooDeep type) := by
  intro parsed rewritten
  obtain ⟨parts⟩ := exists_parts hf he hr
  have hc : collisionsOf (.ofRecords contractName fs es rs) = rewritten := parts.collisionsOf_eq contractName
  have hn : (assemble parsed (.bool false)).notices = (buildDocument parsed).notices := notices_assemble _ _
  refine ⟨⟨parts.document contractName, parts.lastWins?_eq contractName, ?_⟩, ?_, ?_, fun n h => ?_⟩
  · exact assemble_eq_ok.2 ⟨parts.buildDocument_eq contractName, fun h => absurd h (by decide)⟩
  · exact (List.nil_append _).trans hc
  · rw [hn, filter_fromAssembler, ← hc]
    rfl
  · rw [hn] at h
    rcases notices_enterAll (quiet_documentEntries contractName fs es rs) n h with ⟨type, rfl⟩ | ⟨name, rfl⟩
    · exact ⟨rfl, .inr ⟨type, rfl⟩⟩
    · exact ⟨rfl, .inl rfl⟩

/-- Of two functions with the same name and method, the last one is described. -/
theorem assemble_lastWins_overloads :
    let fs := [taking "mint" "POST" [.record "to" "address" "address" (.bool false) .absent], taking "mint" "POST" []]
    ∃ d, lastWins? "Token" fs [] [] = some d ∧
      (assemble (.record (.ofRecords "Token" fs [] [])) (.bool false)).result = .ok d := by
  intro fs
  have hp : (Parameter.record "to" "address" "address" (.bool false) .absent).WellFormed := ⟨⟨_, rfl⟩, trivial⟩
  have hf : ∀ f ∈ fs, f.WellFormed := by
    refine List.forall_mem_cons.2 ⟨taking_wellFormed (.inr rfl) ?_, List.forall_mem_singleton.2 ?_⟩
    · exact List.forall_mem_singleton.2 hp
    · exact taking_wellFormed (.inr rfl) fun _ h => absurd h List.not_mem_nil
  exact (assemble_lastWins hf (fun _ h => absurd h List.not_mem_nil) fun _ h => absurd h List.not_mem_nil).1

end ContractApi.OpenApi
