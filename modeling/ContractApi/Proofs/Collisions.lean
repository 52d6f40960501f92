import ContractApi.Proofs.Operations
import ContractApi.Proofs.Parts
/-!
# What collides, and what strict assembly guarantees

- Two records at different positions are described in the same place exactly if they are functions with the same name and
  the same method, functions with the same name that both take or both return something, events with the same name, or
  errors with the same name (`Collides`, `nodup_places`).
- If nothing collides, everything that was entered is found where it was entered (`Parts.get?_operation`,
  `Parts.at?_schema_of_mem`).
- Strict assembly fails exactly if something collides, and what it returns describes every record
  (`strict_assembly_lossless`).
-/

namespace ContractApi.OpenApi

open ContractApi.Abi

/-! ## Elements at different positions -/

/-- Whether two elements at different positions are related. -/
def Twice {α : Type} (P : α → α → Prop) (l : List α) : Prop :=
  ∃ (i j : Nat) (a b : α), i ≠ j ∧ l[i]? = some a ∧ l[j]? = some b ∧ P a b

theorem not_twice {α : Type} {P : α → α → Prop} (hs : ∀ a b, P a b → P b a) {l : List α} :
    ¬Twice P l ↔ l.Pairwise fun a b => ¬P a b := by
  rw [List.pairwise_iff_getElem]
  constructor
  · intro h i j hi hj hij hp
    exact h ⟨i, j, l[i], l[j], by omega, List.getElem?_eq_getElem hi, List.getElem?_eq_getElem hj, hp⟩
  · rintro h ⟨i, j, a, b, hij, ha, hb, hp⟩
    obtain ⟨hi, rfl⟩ := List.getElem?_eq_some_iff.1 ha
    obtain ⟨hj, rfl⟩ := List.getElem?_eq_some_iff.1 hb
    rcases Nat.lt_or_gt_of_ne hij with hlt | hlt
    · exact h i j hi hj hlt hp
    · exact h j i hj hi hlt (hs _ _ hp)

/-! ## Collisions -/

/-- Whether the functions are called in the same way. -/
def SameOperation (f g : FunctionRecord) : Prop := f.name = g.name ∧ f.httpMethod = g.httpMethod

/-- Whether the functions have the same name and both take something. -/
def SameRequest (f g : FunctionRecord) : Prop :=
  f.name = g.name ∧ f.inputs.isPresent = true ∧ g.inputs.isPresent = true

/-- Whether the functions have the same name and both return something. -/
def SameResponse (f g : FunctionRecord) : Prop :=
  f.name = g.name ∧ f.outputs.isPresent = true ∧ g.outputs.isPresent = true

/-- Whether two records at different positions are described in the same place. -/
def Collides (fs : List FunctionRecord) (es : List EventRecord) (rs : List ErrorRecord) : Prop :=
  Twice SameOperation fs ∨ Twice SameRequest fs ∨ Twice SameResponse fs ∨ Twice (fun e e' => e.name = e'.name) es ∨
    Twice (fun r r' => r.name = r'.name) rs

theorem not_collides {fs : List FunctionRecord} {es : List EventRecord} {rs : List ErrorRecord} :
    ¬Collides fs es rs ↔ (fs.Pairwise fun f g => ¬SameOperation f g ∧ ¬SameRequest f g ∧ ¬SameResponse f g) ∧
      (es.Pairwise fun e e' => e.name ≠ e'.name) ∧ rs.Pairwise fun r r' => r.name ≠ r'.name := by
  rw [Collides, not_or, not_or, not_or, not_or, not_twice fun f g h => ⟨h.1.symm, h.2.symm⟩,
    not_twice fun f g h => ⟨h.1.symm, h.2.symm⟩, not_twice fun f g h => ⟨h.1.symm, h.2.symm⟩,
    not_twice fun e e' h => h.symm, not_twice fun r r' h => h.symm, List.pairwise_and_iff, List.pairwise_and_iff]
  tauto

/-! ## Places -/

/-- Texts are displayed differently if they are different. -/
theorem display_inj {a b : Value} (ha : a.IsText) (hb : b.IsText) : a.display = b.display ↔ a = b := by
  obtain ⟨t, rfl⟩ := ha
  obtain ⟨u, rfl⟩ := hb
  simp [Value.display]

/-- The method of a well-formed function determines where its operation stands. -/
theorem methodKey_inj {f g : FunctionRecord} (hf : f.WellFormed) (hg : g.WellFormed) :
    methodKey f = methodKey g ↔ f.httpMethod = g.httpMethod := by
  have hne : Text.lower "GET" ≠ Text.lower "POST" := by decide
  rcases hf.method with hf | hf <;> rcases hg.method with hg | hg <;> simp [methodKey, hf, hg, hne, hne.symm]
  all_goals decide

theorem mem_functionPlaces {f : FunctionRecord} {p : Place} : p ∈ functionPlaces f ↔
    p = .operation (pathOf f.name) (methodKey f) ∨
      f.inputs.isPresent = true ∧ p = .schema (SchemaKind.request.key f.name.display) ∨
        f.outputs.isPresent = true ∧ p = .schema (SchemaKind.response.key f.name.display) := by
  cases hi : f.inputs.isPresent <;> cases ho : f.outputs.isPresent <;>
    simp [functionPlaces, functionMentions, schemaKey, hi, ho]

/-- A function enters nothing twice. -/
theorem nodup_functionPlaces (f : FunctionRecord) : (functionPlaces f).Nodup := by
  cases hi : f.inputs.isPresent <;> cases ho : f.outputs.isPresent <;>
    simp [functionPlaces, functionMentions, schemaKey, hi, ho, SchemaKind.key_inj]

/-- Well-formed functions are described in different places exactly if they are told apart. -/
theorem disjoint_functionPlaces {f g : FunctionRecord} (hf : f.WellFormed) (hg : g.WellFormed) :
    (functionPlaces f).Disjoint (functionPlaces g) ↔
      ¬SameOperation f g ∧ ¬SameRequest f g ∧ ¬SameResponse f g := by
  have hn := display_inj hf.name hg.name
  have hm := methodKey_inj hf hg
  constructor
  · intro h
    refine ⟨fun ⟨h₁, h₂⟩ => ?_, fun ⟨h₁, h₂, h₃⟩ => ?_, fun ⟨h₁, h₂, h₃⟩ => ?_⟩
    · refine h (mem_functionPlaces.2 (.inl rfl)) (mem_functionPlaces.2 (.inl ?_))
      rw [h₁, hm.2 h₂]
    · refine h (mem_functionPlaces.2 (.inr (.inl ⟨h₂, rfl⟩))) (mem_functionPlaces.2 (.inr (.inl ⟨h₃, ?_⟩)))
      rw [h₁]
    · refine h (mem_functionPlaces.2 (.inr (.inr ⟨h₂, rfl⟩))) (mem_functionPlaces.2 (.inr (.inr ⟨h₃, ?_⟩)))
      rw [h₁]
  · -- two entries in one place are of one kind, so three of the nine cases are left
    rintro ⟨ho, hi, hr⟩ p hp hp'
    rcases mem_functionPlaces.1 hp with rfl | ⟨hfi, rfl⟩ | ⟨hfo, rfl⟩ <;>
      rcases mem_functionPlaces.1 hp' with h | ⟨hgi, h⟩ | ⟨hgo, h⟩ <;>
        simp only [Place.operation.injEq, Place.schema.injEq, reduceCtorEq, SchemaKind.key_inj, false_and, true_and] at h
    · exact ho ⟨hn.1 (pathOf_inj.1 h.1), hm.1 h.2⟩
    · exact hi ⟨hn.1 h, hfi, hgi⟩
    · exact hr ⟨hn.1 h, hfo, hgo⟩

/-- What a function enters is no schema of another kind. -/
theorem ne_of_mem_functionPlaces {f : FunctionRecord} {p : Place} (hp : p ∈ functionPlaces f) {kind : SchemaKind}
    (hq : kind ≠ .request) (hr : kind ≠ .response) (name : Text) : p ≠ .schema (kind.key name) := by
  rintro rfl
  rcases mem_functionPlaces.1 hp with h | ⟨_, h⟩ | ⟨_, h⟩
  · cases h
  · exact hq (SchemaKind.key_inj.1 (Place.schema.inj h)).1
  · exact hr (SchemaKind.key_inj.1 (Place.schema.inj h)).1

section Nodup

variable {fs : List FunctionRecord} {es : List EventRecord} {rs : List ErrorRecord}

theorem nodup_flatMap_functionPlaces (hf : ∀ f ∈ fs, f.WellFormed) : (fs.flatMap functionPlaces).Nodup ↔
    fs.Pairwise fun f g => ¬SameOperation f g ∧ ¬SameRequest f g ∧ ¬SameResponse f g := by
  have hp : fs.Pairwise (Function.onFun List.Disjoint functionPlaces) ↔
      fs.Pairwise fun f g => ¬SameOperation f g ∧ ¬SameRequest f g ∧ ¬SameResponse f g :=
    List.Pairwise.iff_of_mem fun hmem hmem' => disjoint_functionPlaces (hf _ hmem) (hf _ hmem')
  rw [List.nodup_flatMap, hp]
  exact and_iff_right fun f _ => nodup_functionPlaces f

theorem nodup_map_schema {α : Type} {l : List α} {name : α → Value} (h : ∀ a ∈ l, (name a).IsText)
    (kind : SchemaKind) : (l.map fun a => Place.schema (kind.key (name a).display)).Nodup ↔
      l.Pairwise fun a b => name a ≠ name b := by
  rw [List.nodup_iff_pairwise_ne, List.pairwise_map]
  refine List.Pairwise.iff_of_mem fun {a b} ha hb => ?_
  have hn := display_inj (h a ha) (h b hb)
  simp [SchemaKind.key_inj, hn]

/-- All places are different exactly if nothing collides; schemas of different kinds are never in the way. -/
theorem nodup_places (hf : ∀ f ∈ fs, f.WellFormed) (he : ∀ e ∈ es, e.WellFormed) (hr : ∀ r ∈ rs, r.WellFormed) :
    (places fs es rs).Nodup ↔ ¬Collides fs es rs := by
  have hes := nodup_map_schema (fun e h => (he e h).name) .event
  have hrs := nodup_map_schema (fun r h => (hr r h).name) .error
  rw [not_collides, places, List.nodup_append, List.nodup_append, nodup_flatMap_functionPlaces hf, hes, hrs]
  constructor
  · rintro ⟨⟨hf, he, _⟩, hr, _⟩
    exact ⟨hf, he, hr⟩
  · rintro ⟨hf, he, hr⟩
    refine ⟨⟨hf, he, ?_⟩, hr, ?_⟩
    · intro p hp q hq
      obtain ⟨f, _, hp⟩ := List.mem_flatMap.1 hp
      obtain ⟨e, _, rfl⟩ := List.mem_map.1 hq
      exact ne_of_mem_functionPlaces hp (by decide) (by decide) _
    · intro p hp q hq
      obtain ⟨r, _, rfl⟩ := List.mem_map.1 hq
      rcases List.mem_append.1 hp with hp | hp
      · obtain ⟨f, _, hp⟩ := List.mem_flatMap.1 hp
        exact ne_of_mem_functionPlaces hp (by decide) (by decide) _
      · obtain ⟨e, _, rfl⟩ := List.mem_map.1 hp
        simp [SchemaKind.key_inj]

end Nodup

/-! ## Documents without collisions -/

/-- Where the place is among the operations. -/
def Place.operation? : Place → Option (Text × Text)
  | operation path method => some (path, method)
  | schema _ => none

/-- Where the place is among the schemas. -/
def Place.schema? : Place → Option Text
  | operation .. => none
  | schema name => some name

theorem Place.operation?_eq_some {p : Place} {e : Text × Text} (h : e ∈ p.operation?) : p = .operation e.1 e.2 := by
  cases p with
  | operation path method =>
    cases h
    rfl
  | schema name => cases h

theorem Place.schema?_eq_some {p : Place} {name : Text} (h : name ∈ p.schema?) : p = .schema name := by
  cases p with
  | operation path method => cases h
  | schema name =>
    cases h
    rfl

namespace Parts

variable {fs : List FunctionRecord} {es : List EventRecord} {rs : List ErrorRecord} (parts : Parts fs es rs)

/-- If nothing collides, no two operations stand in the same place. -/
theorem nodup_operations (hn : (places fs es rs).Nodup) : (parts.operations.map fun e => (e.1, e.2.1)).Nodup := by
  have hp : (places fs es rs).filterMap Place.operation? = parts.operations.map fun e => (e.1, e.2.1) := by
    rw [← parts.places_eq, ← parts.operations_entries, List.filterMap_map, List.map_filterMap]
    refine List.filterMap_congr fun e _ => ?_
    cases e <;> rfl
  rw [← hp]
  exact hn.filterMap fun p q e hp hq => (Place.operation?_eq_some hp).trans (Place.operation?_eq_some hq).symm

theorem nodup_schemas (hn : (places fs es rs).Nodup) :
    ((parts.schemas.map fun e => (schemaKey e.1, e.2)).map (·.1)).Nodup := by
  have hp : (places fs es rs).filterMap Place.schema? = (parts.schemas.map fun e => (schemaKey e.1, e.2)).map (·.1) := by
    rw [← parts.places_eq, ← parts.schemas_entries, List.filterMap_map, List.map_filterMap]
    refine List.filterMap_congr fun e _ => ?_
    cases e <;> rfl
  rw [← hp]
  exact hn.filterMap fun p q e hp hq => (Place.schema?_eq_some hp).trans (Place.schema?_eq_some hq).symm

/-- If nothing collides, every function has its own operation. -/
theorem get?_operation (hn : (places fs es rs).Nodup) (contractName : Value) {f : FunctionRecord} (hf : f ∈ fs) :
    (Table.get? (pathOf f.name) (parts.document contractName).paths).bind (Table.get? (methodKey f)) =
      some (parts.operation f) :=
  Table.get?_get?_ofNested_of_nodup (parts.nodup_operations hn) (List.mem_map.2 ⟨f, hf, rfl⟩)

/-- If nothing collides, everything that is written to the schemas is found. -/
theorem at?_schema_of_mem (hn : (places fs es rs).Nodup) (contractName : Value) {m : SchemaKind × Text} {s : Schema}
    (h : (m, s) ∈ parts.schemas) :
    (parts.document contractName).toValue.at? ["components", "schemas", schemaKey m] = some s.toValue := by
  have hg : Table.get? (schemaKey m) (parts.document contractName).schemas = some s :=
    Table.get?_ofList_of_nodup (parts.nodup_schemas hn) (List.mem_map.2 ⟨(m, s), h, rfl⟩)
  rw [at?_schema, hg, Option.map_some]

theorem mem_schemas_input {f : FunctionRecord} (hf : f ∈ fs) (hi : f.inputs.isPresent = true) :
    ((.request, f.name.display), parts.input f) ∈ parts.schemas := by
  refine List.mem_append_left _ (List.mem_append_left _ (List.mem_flatMap.2 ⟨f, hf, ?_⟩))
  simp [functionSchemas, hi]

theorem mem_schemas_output {f : FunctionRecord} (hf : f ∈ fs) (ho : f.outputs.isPresent = true) :
    ((.response, f.name.display), parts.output f) ∈ parts.schemas := by
  refine List.mem_append_left _ (List.mem_append_left _ (List.mem_flatMap.2 ⟨f, hf, ?_⟩))
  simp [functionSchemas, ho]

theorem mem_schemas_event {e : EventRecord} (he : e ∈ es) :
    ((.event, e.name.display), parts.event e) ∈ parts.schemas :=
  List.mem_append_left _ (List.mem_append_right _ (List.mem_map.2 ⟨e, he, rfl⟩))

theorem mem_schemas_error {r : ErrorRecord} (hr : r ∈ rs) :
    ((.error, r.name.display), parts.error r) ∈ parts.schemas :=
  List.mem_append_right _ (List.mem_map.2 ⟨r, hr, rfl⟩)

end Parts

/-! ## Strict assembly -/

/-- Whether the document describes the function by the operation, and the operation by the schemas, that were made of
this very function. -/
structure Describes (document : Value) (f : FunctionRecord) (o : Operation) : Prop where
  made : (Operation.ofFunction (.record f)).result = .ok o
  entry : document.at? ["paths", pathOf f.name, methodKey f] = some o.toValue
  request : ∀ ref, o.toValue.at? requestReference = some (.text ref) →
    ∃ s, (inputSchema (.record f)).result = .ok s ∧ resolve? document ref = some s.toValue
  response : ∀ ref, o.toValue.at? responseReference = some (.text ref) →
    ∃ s, (outputSchema (.record f)).result = .ok s ∧ resolve? document ref = some s.toValue
  references : ∀ ref ∈ o.toValue.textsUnder "$ref",
    o.toValue.at? requestReference = some (.text ref) ∨ o.toValue.at? responseReference = some (.text ref)

section Strict

variable {fs : List FunctionRecord} {es : List EventRecord} {rs : List ErrorRecord}

/-- If nothing collides, every function is described by what was made of it. -/
theorem Parts.describes (parts : Parts fs es rs) (hn : (places fs es rs).Nodup) (contractName : Value)
    {f : FunctionRecord} (hf : f ∈ fs) : Describes (parts.document contractName).toValue f (parts.operation f) where
  made := parts.operation_eq f hf
  entry := by rw [at?_operation, parts.get?_operation hn contractName hf, Option.map_some]
  request := by
    intro ref h
    rw [at?_requestReference] at h
    obtain ⟨name, hname, h⟩ := Option.map_eq_some_iff.1 h
    cases h
    obtain ⟨hi, _, rfl⟩ := (body?_requestOf (ofFunction_eq_ok (parts.operation_eq f hf)).1 name).1 hname
    refine ⟨parts.input f, parts.input_eq f hf hi, ?_⟩
    rw [resolve?_schemaReference]
    exact parts.at?_schema_of_mem hn contractName (parts.mem_schemas_input hf hi)
  response := by
    intro ref h
    rw [at?_responseReference] at h
    obtain ⟨name, hname, h⟩ := Option.map_eq_some_iff.1 h
    cases h
    obtain ⟨ho, rfl⟩ := (response_ofFunction (parts.operation_eq f hf) name).1 hname
    refine ⟨parts.output f, parts.output_eq f hf ho, ?_⟩
    rw [resolve?_schemaReference]
    exact parts.at?_schema_of_mem hn contractName (parts.mem_schemas_output hf ho)
  references := fun _ h => mem_textsUnder_operation h

/-- Whether the assembly of the document ends in a failure to assemble. -/
def FailsToAssemble (o : Outcome Document) : Prop := ∃ failure, o.result = .error failure ∧ failure.stage = .assembling

/-- Strict assembly returns the document of the parts, if all places are different. -/
theorem Parts.strict_eq_ok (parts : Parts fs es rs) {contractName : Value} {d : Document} :
    (assemble (.record (.ofRecords contractName fs es rs)) (.bool true)).result = .ok d ↔
      (places fs es rs).Nodup ∧ d = parts.document contractName := by
  have hc : collisionsOf (.ofRecords contractName fs es rs) = [] ↔ (places fs es rs).Nodup := by
    rw [parts.collisionsOf_eq, List.map_eq_nil_iff, repeats_eq_nil]
  rw [assemble_eq_ok, parts.buildDocument_eq, Except.ok.injEq, hc]
  constructor
  · rintro ⟨rfl, hn⟩
    exact ⟨hn rfl, rfl⟩
  · rintro ⟨hn, rfl⟩
    exact ⟨rfl, fun _ => hn⟩

/-- Strict assembly fails to assemble a document, if some place repeats. -/
theorem Parts.failsToAssemble_iff (parts : Parts fs es rs) (contractName : Value) :
    FailsToAssemble (assemble (.record (.ofRecords contractName fs es rs)) (.bool true)) ↔ ¬(places fs es rs).Nodup := by
  constructor
  · rintro ⟨failure, h, _⟩ hn
    rw [parts.strict_eq_ok.2 ⟨hn, rfl⟩] at h
    cases h
  · intro hn
    have hne : (collisionsOf (.ofRecords contractName fs es rs)).isEmpty = false := by
      simpa [parts.collisionsOf_eq, repeats_eq_nil] using hn
    refine ⟨.collisions (collisionsOf (.ofRecords contractName fs es rs)), ?_, rfl⟩
    rw [assemble_of_built (parts.buildDocument_eq contractName), if_pos (by simp [Value.isTruthy, hne])]

/-- Strict assembly fails exactly if something collides; otherwise it returns the document that is assembled anyway,
in which every function, every event and every error is described by what was made of it. -/
theorem strict_assembly_lossless {contractName : Value} (hf : ∀ f ∈ fs, f.WellFormed) (he : ∀ e ∈ es, e.WellFormed)
    (hr : ∀ r ∈ rs, r.WellFormed) :
    (FailsToAssemble (assemble (.record (.ofRecords contractName fs es rs)) (.bool true)) ↔ Collides fs es rs) ∧
    ((assemble (.record (.ofRecords contractName fs es rs)) (.bool true)).Succeeds ↔ ¬Collides fs es rs) ∧
    (∀ kind kind' name name', SchemaKind.key kind name = SchemaKind.key kind' name' → kind = kind') ∧
    ∀ d, (assemble (.record (.ofRecords contractName fs es rs)) (.bool true)).result = .ok d →
      (assemble (.record (.ofRecords contractName fs es rs)) (.bool false)).result = .ok d ∧
      (∀ f ∈ fs, ∃ o, Describes d.toValue f o) ∧
      (∀ e ∈ es, ∃ s, (eventSchema (.record e)).result = .ok s ∧
        d.toValue.at? ["components", "schemas", SchemaKind.event.key e.name.display] = some s.toValue) ∧
      ∀ r ∈ rs, ∃ s, (errorSchema (.record r)).result = .ok s ∧
        d.toValue.at? ["components", "schemas", SchemaKind.error.key r.name.display] = some s.toValue := by
  obtain ⟨parts⟩ := exists_parts hf he hr
  have hc := nodup_places hf he hr
  refine ⟨?_, ?_, fun kind kind' name name' h => (SchemaKind.key_inj.1 h).1, fun d hd => ?_⟩
  · rw [parts.failsToAssemble_iff, hc, not_not]
  · rw [← hc]
    constructor
    · rintro ⟨d, hd⟩
      exact (parts.strict_eq_ok.1 hd).1
    · exact fun hn => ⟨_, parts.strict_eq_ok.2 ⟨hn, rfl⟩⟩
  · obtain ⟨hn, rfl⟩ := parts.strict_eq_ok.1 hd
    refine ⟨?_, fun f h => ⟨_, parts.describes hn contractName h⟩, fun e h => ⟨_, parts.event_eq e h, ?_⟩,
      fun r h => ⟨_, parts.error_eq r h, ?_⟩⟩
    · exact assemble_eq_ok.2 ⟨parts.buildDocument_eq contractName, fun h => absurd h (by decide)⟩
    · exact parts.at?_schema_of_mem hn contractName (parts.mem_schemas_event h)
    · exact parts.at?_schema_of_mem hn contractName (parts.mem_schemas_error h)

end Strict

/-- Two functions of one name do not collide if their methods differ and only one of them takes something. -/
theorem strict_assembly_lossless_overloads :
    let fs := [taking "mint" "GET" [], taking "mint" "POST" [.record "to" "address" "address" (.bool false) .absent]]
    ∃ d, (assemble (.record (.ofRecords "Token" fs [] [])) (.bool true)).result = .ok d ∧
      ∀ f ∈ fs, ∃ o, Describes d.toValue f o := by
  intro fs
  have hf : ∀ f ∈ fs, f.WellFormed := by
    have hp : (Parameter.record "to" "address" "address" (.bool false) .absent).WellFormed := ⟨⟨_, rfl⟩, trivial⟩
    refine List.forall_mem_cons.2 ⟨taking_wellFormed (.inl rfl) ?_, List.forall_mem_singleton.2 ?_⟩
    · exact fun _ h => absurd h List.not_mem_nil
    · exact taking_wellFormed (.inr rfl) (List.forall_mem_singleton.2 hp)
  have he : ∀ e ∈ ([] : List EventRecord), e.WellFormed := fun _ h => absurd h List.not_mem_nil
  have hr : ∀ r ∈ ([] : List ErrorRecord), r.WellFormed := fun _ h => absurd h List.not_mem_nil
  obtain ⟨_, hs, _, hd⟩ := strict_assembly_lossless hf he hr
  obtain ⟨d, h⟩ := hs.2 ((nodup_places hf he hr).1 (by decide))
  exact ⟨d, h, (hd d h).2.1⟩

end ContractApi.OpenApi
