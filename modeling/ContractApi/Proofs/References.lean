import ContractApi.Proofs.LastWins
import ContractApi.Proofs.Operations
import ContractApi.Proofs.Reading
/-!
# References are closed, and operations have the form of their functions

- Everything that a record contributes is a key of the schemas, whatever is overwritten (`Parts.mem_keys_schemas`), so
  every reference of a document is to one of its schemas (`Parts.references_closed`).
- An interface that was read has functions of two methods only (`httpMethod_of_readItems`), so every document that is assembled
  from one is closed and of the form that its functions ask for (`references_and_shapes`).
-/

namespace ContractApi.OpenApi

open ContractApi.Abi

namespace Parts

variable {fs : List FunctionRecord} {es : List EventRecord} {rs : List ErrorRecord} (parts : Parts fs es rs)

/-- Everything that a record contributes to is among the schemas. -/
theorem mem_keys_schemas (contractName : Value) {m : SchemaKind × Text} (h : m ∈ mentions fs es rs) :
    schemaKey m ∈ Table.keys (parts.document contractName).schemas := by
  rw [document, Table.mem_keys_ofList, List.map_map]
  rw [← parts.map_schemas] at h
  obtain ⟨e, he, rfl⟩ := List.mem_map.1 h
  exact List.mem_map.2 ⟨e, he, rfl⟩

theorem mem_mentions {f : FunctionRecord} (hf : f ∈ fs) {m : SchemaKind × Text} (hm : m ∈ functionMentions f) :
    m ∈ mentions fs es rs :=
  List.mem_append_left _ (List.mem_append_left _ (List.mem_flatMap.2 ⟨f, hf, hm⟩))

/-- What the operation of a function refers to is contributed by that function. -/
theorem mem_schemaNames {f : FunctionRecord} (hf : f ∈ fs) {name : Text} (h : name ∈ (parts.operation f).schemaNames) :
    ∃ m ∈ functionMentions f, schemaKey m = name := by
  rcases List.mem_append.1 h with hr | hb
  · obtain ⟨ho, rfl⟩ := (response_ofFunction (parts.operation_eq f hf) name).1 (Option.mem_toList.1 hr)
    exact ⟨(.response, f.name.display), by simp [functionMentions, ho], rfl⟩
  · obtain ⟨hi, _, rfl⟩ :=
      (body?_requestOf (ofFunction_eq_ok (parts.operation_eq f hf)).1 name).1 (Option.mem_toList.1 hb)
    exact ⟨(.request, f.name.display), by simp [functionMentions, hi], rfl⟩

/-- Every reference is to a schema of the document. -/
theorem references_closed {contractName : Value} {ref : Text}
    (h : ref ∈ (parts.document contractName).toValue.textsUnder "$ref") :
    ∃ name, ref = schemaReference name ∧
      ((parts.document contractName).toValue.at? ["components", "schemas", name]).isSome = true := by
  rw [textsUnder_document] at h
  obtain ⟨name, hname, rfl⟩ := List.mem_map.1 h
  obtain ⟨o, ho, hname⟩ := List.mem_flatMap.1 hname
  obtain ⟨path, hp, ho⟩ := List.mem_flatMap.1 ho
  obtain ⟨method, hm, rfl⟩ := List.mem_map.1 ho
  -- the schema that the operation refers to was contributed by its function, whoever wrote it last
  obtain ⟨f, hf, heq⟩ := parts.mem_paths hp hm
  rw [heq] at hname
  have hf := (lastFunction?_some hf).1
  obtain ⟨m, hm, rfl⟩ := parts.mem_schemaNames hf hname
  refine ⟨schemaKey m, rfl, ?_⟩
  rw [at?_schema, Option.isSome_map, Table.isSome_get?]
  exact parts.mem_keys_schemas contractName (mem_mentions hf hm)

end Parts

/-! ## The form of operations -/

/-- Whether an operation has the form that the function and the method ask for. -/
structure HasShape (f : FunctionRecord) (method : Text) (o : Value) : Prop where
  known : method = "get" ∨ method = "post"
  get_body : method = "get" → o.at? ["requestBody"] = none
  get_parameters : method = "get" → ((o.at? ["parameters"]).isSome = true ↔ f.inputs.isPresent = true)
  post_body : method = "post" → ((o.at? ["requestBody"]).isSome = true ↔ f.inputs.isPresent = true)
  post_parameters : method = "post" → o.at? ["parameters"] = none
  content : (o.at? ["responses", "200", "content"]).isSome = true ↔ f.outputs.isPresent = true

theorem hasShape_ofFunction {f : FunctionRecord} {o : Operation}
    (hm : f.httpMethod = .text "GET" ∨ f.httpMethod = .text "POST")
    (ho : (Operation.ofFunction (.record f)).result = .ok o) : HasShape f (methodKey f) o.toValue := by
  obtain ⟨hr, hresponse⟩ := ofFunction_eq_ok ho
  have hb : (o.toValue.at? ["requestBody"]).isSome = true ↔ f.inputs.isPresent = true ∧ f.httpMethod ≠ .text "GET" := by
    rw [isSome_requestBody, Option.isSome_iff_exists]
    constructor
    · rintro ⟨name, h⟩
      obtain ⟨hi, hg, _⟩ := (body?_requestOf hr name).1 h
      exact ⟨hi, hg⟩
    · rintro ⟨hi, hg⟩
      exact ⟨_, (body?_requestOf hr _).2 ⟨hi, hg, rfl⟩⟩
  have hq : (o.toValue.at? ["parameters"]).isSome = true ↔ f.inputs.isPresent = true ∧ f.httpMethod = .text "GET" := by
    rw [isSome_parameters]
    exact isQuery_requestOf hr
  have hc : (o.toValue.at? ["responses", "200", "content"]).isSome = true ↔ f.outputs.isPresent = true := by
    rw [isSome_content, hresponse]
    cases f.outputs.isPresent <;> simp
  rcases hm with hm | hm
  · have hk : methodKey f = "get" := by simp only [methodKey, hm]; decide
    have hp : Text.ofString "get" ≠ "post" := by decide
    rw [hk]
    refine ⟨.inl rfl, fun _ => ?_, fun _ => ?_, fun h => absurd h hp, fun h => absurd h hp, hc⟩
    · rw [← Option.not_isSome_iff_eq_none, hb]
      exact fun h => h.2 hm
    · rw [hq, and_iff_left hm]
  · have hk : methodKey f = "post" := by simp only [methodKey, hm]; decide
    have hp : Text.ofString "post" ≠ "get" := by decide
    have hg : f.httpMethod ≠ .text "GET" := by rw [hm]; exact fun h => absurd (Value.text.inj h) (by decide)
    rw [hk]
    refine ⟨.inr rfl, fun h => absurd h hp, fun h => absurd h hp, fun _ => ?_, fun _ => ?_, hc⟩
    · rw [hb, and_iff_left hg]
    · rw [← Option.not_isSome_iff_eq_none, hq]
      exact fun h => hg h.2

/-! ## Documents of interfaces that were read -/

/-- The references of a document that was assembled from an interface that was read are to its own schemas, and each
of its operations has the form that the function it was made of asks for. -/
theorem references_and_shapes {raw contractName strict : Value} {i : Interface} {d : Document}
    (hi : (readInterface raw contractName).result = .ok i) (hd : (assemble (.record i) strict).result = .ok d) :
    (∀ ref ∈ d.toValue.textsUnder "$ref", ∃ name, ref = schemaReference name ∧
      (d.toValue.at? ["components", "schemas", name]).isSome = true) ∧
    ∃ fs, i.functions = .list (fs.map .record) ∧ ∀ path operations, (path, operations) ∈ d.paths →
      ∀ method o, (method, o) ∈ operations → ∃ f, lastFunction? fs path method = some f ∧
        (Operation.ofFunction (.record f)).result = .ok o ∧ HasShape f method o.toValue := by
  obtain ⟨items, records, _, hr, rfl⟩ := readInterface_eq_ok.1 hi
  have hm := httpMethod_of_readItems hr
  rw [Interface.ofItems_eq] at hd ⊢
  have hb := (assemble_eq_ok.1 hd).1
  obtain ⟨parts⟩ := exists_parts_of_built hb
  cases (parts.buildDocument_eq _).symm.trans hb
  refine ⟨fun ref h => parts.references_closed h, _, rfl, fun path operations hp method o ho => ?_⟩
  obtain ⟨f, hf, rfl⟩ := parts.mem_paths hp ho
  obtain ⟨hmem, _, rfl⟩ := lastFunction?_some hf
  have hmade := parts.operation_eq f hmem
  exact ⟨f, hf, hmade, hasShape_ofFunction (hm f hmem) hmade⟩

/-- Two functions of one name, of which only the one that changes the state takes something. -/
def overloads : Value := .list [
  .object [("type", "function"), ("name", "mint"), ("stateMutability", "view"),
    ("outputs", .list [.object [("name", ""), ("type", "uint256")]])],
  .object [("type", "function"), ("name", "mint"), ("inputs", .list [.object [("name", "to"), ("type", "address")]])]]

theorem references_and_shapes_overloads : ∃ i d, (readInterface overloads .null).result = .ok i ∧
    (assemble (.record i) (.bool false)).result = .ok d ∧ d.toValue.textsUnder "$ref" ≠ [] ∧
      ∀ ref ∈ d.toValue.textsUnder "$ref", ∃ name, ref = schemaReference name ∧
        (d.toValue.at? ["components", "schemas", name]).isSome = true := by
  have h : ∀ i d, (readInterface overloads .null).result = .ok i → (assemble (.record i) (.bool false)).result = .ok d →
      ∀ ref ∈ d.toValue.textsUnder "$ref", ∃ name, ref = schemaReference name ∧
        (d.toValue.at? ["components", "schemas", name]).isSome = true :=
    fun i d hi hd => (references_and_shapes hi hd).1
  exact ⟨_, _, rfl, rfl, List.cons_ne_nil _ _, h _ _ rfl rfl⟩

end ContractApi.OpenApi
