import ContractApi.OpenApi.Document
import ContractApi.Proofs.Table
import Mathlib.Data.List.Basic
/-!
# Finding one's way in a document

- `Value.at?` follows a path of names, and `Value.textsUnder` collects the texts that stand under a name anywhere in a
  value. `resolve?` is what a reference refers to.
- Schemas refer to nothing (`textsUnder_schema`). An operation refers to the schemas of what it takes and returns
  (`textsUnder_operation`), and a document to those of its operations (`textsUnder_document`).
- What stands under a path and a method (`at?_operation`) and under the name of a schema (`at?_schema`) of a document.
-/

namespace ContractApi

namespace Value

/-- The value at the end of a path of names. -/
def at? : List Text → Value → Option Value
  | [], v => some v
  | name :: path, .object entries => (lookup? name entries).bind (at? path)
  | _ :: _, _ => none

def texts : Value → List Text
  | .text t => [t]
  | _ => []

mutual

/-- The texts that stand under the name anywhere in the value. -/
def textsUnder (name : Text) : Value → List Text
  | .list items => itemTexts name items
  | .object entries => entryTexts name entries
  | _ => []

/-- The texts that stand under the name anywhere in the items. -/
def itemTexts (name : Text) : List Value → List Text
  | [] => []
  | v :: rest => v.textsUnder name ++ itemTexts name rest

/-- The texts that stand under the name among the entries or anywhere below them. -/
def entryTexts (name : Text) : List (Key × Value) → List Text
  | [] => []
  | (key, v) :: rest => (if key = .text name then v.texts else []) ++ v.textsUnder name ++ entryTexts name rest

end

theorem at?_object (name : Text) (path : List Text) (entries : List (Key × Value)) :
    (object entries).at? (name :: path) = (lookup? name entries).bind (at? path) := rfl

theorem itemTexts_eq (name : Text) (items : List Value) : itemTexts name items = items.flatMap (textsUnder name) := by
  induction items with
  | nil => rfl
  | cons v items ih => rw [itemTexts, ih, List.flatMap_cons]

theorem entryTexts_append (name : Text) : ∀ es es' : List (Key × Value),
    entryTexts name (es ++ es') = entryTexts name es ++ entryTexts name es'
  | [], _ => rfl
  | (key, v) :: es, es' => by
    simp only [List.cons_append, entryTexts, entryTexts_append name es es', List.append_assoc]

/-- Objects under any names contribute what is in them. -/
theorem entryTexts_map {α : Type} (name : Text) (key : α → Key) (value : α → Value)
    (h : ∀ a, (value a).texts = []) (l : List α) :
    entryTexts name (l.map fun a => (key a, value a)) = l.flatMap fun a => (value a).textsUnder name := by
  induction l with
  | nil => rfl
  | cons a l ih => simp [entryTexts, h, ih]

/-- An entry for a text under another name changes nothing. -/
theorem entryTexts_insert {name : Text} {key : Key} (h : key ≠ .text name) (t : Text) :
    ∀ {es : List (Key × Value)}, entryTexts name es = [] → entryTexts name (Table.insert key (.text t) es) = []
  | [], _ => by simp [Table.insert, entryTexts, textsUnder, h]
  | (k, v) :: es, he => by
    simp only [entryTexts, List.append_eq_nil_iff] at he
    obtain ⟨⟨hk, hv⟩, hes⟩ := he
    by_cases hkk : k = key
    · subst hkk
      simp [Table.insert, entryTexts, textsUnder, h, hes]
    · have ih := entryTexts_insert h t hes
      simp [Table.insert, entryTexts, hkk, hk, hv, ih]

end Value

/-! ## Schemas -/

namespace Schema

theorem toValue_eq_object : ∀ s : Schema, ∃ entries, s.toValue = .object entries
  | unknown _ | integer _ | boolean | address | string | bytes _ | array _ | object _ _ _ => ⟨_, by rw [toValue]⟩
  | described s description => by
    obtain ⟨entries, h⟩ := toValue_eq_object s
    exact ⟨_, by rw [toValue, h, withEntry]⟩

theorem texts_toValue (s : Schema) : s.toValue.texts = [] := by
  obtain ⟨entries, h⟩ := toValue_eq_object s
  rw [h]
  rfl

theorem textsUnder_keys (name : Text) (fields : List (Key × Schema)) :
    (Value.list (fields.map fun f => f.1.toValue)).textsUnder name = [] := by
  rw [Value.textsUnder, Value.itemTexts_eq, List.flatMap_eq_nil_iff]
  intro v hv
  obtain ⟨f, _, rfl⟩ := List.mem_map.1 hv
  cases f.1 <;> rfl

mutual

/-- Schemas refer to nothing. -/
theorem textsUnder_schema : ∀ s : Schema, s.toValue.textsUnder "$ref" = []
  | unknown _ | integer _ | boolean | address | string | bytes _ => by
    simp +decide [toValue, Value.textsUnder, Value.entryTexts]
  | array items => by
    have ih := textsUnder_schema items
    simp +decide [toValue, Value.textsUnder, Value.entryTexts, ih]
  | object fields required description => by
    have ih := entryTexts_fields fields
    have hd : Value.entryTexts "$ref" (descriptionEntry description) = [] := by
      cases description <;> simp +decide [descriptionEntry, Value.entryTexts, Value.textsUnder]
    have hr : Value.entryTexts "$ref" (requirementEntry required fields) = [] := by
      cases required
      · rfl
      · have hk := textsUnder_keys "$ref" fields
        simp +decide [requirementEntry, Value.entryTexts, hk]
    simp +decide [toValue, Value.textsUnder, Value.entryTexts, Value.entryTexts_append, ih, hd, hr]
  | described s description => by
    obtain ⟨entries, h⟩ := toValue_eq_object s
    have ih := textsUnder_schema s
    rw [h, Value.textsUnder] at ih
    rw [toValue, h, withEntry, Value.textsUnder]
    exact Value.entryTexts_insert (by decide) description ih

/-- Neither do the fields of an object. -/
theorem entryTexts_fields : ∀ fields : List (Key × Schema), Value.entryTexts "$ref" (fieldValues fields) = []
  | [] => rfl
  | (name, s) :: fields => by
    have hs := textsUnder_schema s
    have ih := entryTexts_fields fields
    -- a field may well be called like a reference, but it is an object
    simp [fieldValues, Value.entryTexts, texts_toValue, hs, ih]

end

end Schema

namespace OpenApi

open Abi

/-! ## References -/

def schemaReference (name : Text) : Text := "#/components/schemas/" ++ name

/-- What a reference to a schema refers to in a document. -/
def resolve? (document : Value) (ref : Text) : Option Value :=
  if schemaReference [] <+: ref then document.at? ["components", "schemas", ref.drop (schemaReference []).length]
  else none

theorem resolve?_schemaReference (document : Value) (name : Text) :
    resolve? document (schemaReference name) = document.at? ["components", "schemas", name] := by
  have h : schemaReference name = schemaReference [] ++ name := rfl
  rw [resolve?, h, if_pos (List.prefix_append _ _), List.drop_left]

/-! ## Operations -/

/-- Where an operation refers to the schema of what it takes. -/
def requestReference : List Text := ["requestBody", "content", "application/json", "schema", "$ref"]

/-- Where an operation refers to the schema of what it returns. -/
def responseReference : List Text := ["responses", "200", "content", "application/json", "schema", "$ref"]

/-- The name of the schema for the body of a request. -/
def Request.body? : Request → Option Text
  | .body schema => some schema
  | _ => none

/-- The names of the schemas that an operation refers to. -/
def Operation.schemaNames (o : Operation) : List Text := o.response.toList ++ o.request.body?.toList

theorem textsUnder_responses (response : Option Text) :
    (responses response).textsUnder "$ref" = response.toList.map schemaReference := by
  cases response <;> rfl

theorem textsUnder_queryParameter (p : QueryParameter) : p.toValue.textsUnder "$ref" = [] := by
  have hs := Schema.textsUnder_schema p.schema
  have hn : p.name.toValue.textsUnder "$ref" = [] := by cases p.name <;> rfl
  simp +decide [QueryParameter.toValue, Value.textsUnder, Value.entryTexts, hs, hn]

theorem entryTexts_request (r : Request) :
    Value.entryTexts "$ref" r.entries = r.body?.toList.map schemaReference := by
  cases r with
  | empty => rfl
  | body schema => rfl
  | query parameters =>
    have hp : (Value.list (parameters.map QueryParameter.toValue)).textsUnder "$ref" = [] := by
      rw [Value.textsUnder, Value.itemTexts_eq, List.flatMap_map, List.flatMap_eq_nil_iff]
      exact fun p _ => textsUnder_queryParameter p
    simp +decide [Request.entries, Request.body?, Value.entryTexts, hp]

/-- An operation refers to the schemas of what it takes and returns. -/
theorem textsUnder_operation (o : Operation) : o.toValue.textsUnder "$ref" = o.schemaNames.map schemaReference := by
  have hc : Value.entryTexts "$ref" o.commonEntries = o.response.toList.map schemaReference := by
    have hr := textsUnder_responses o.response
    simp +decide [Operation.commonEntries, Value.entryTexts, Value.textsUnder, Value.itemTexts, hr]
  rw [Operation.toValue, Value.textsUnder, Value.entryTexts_append, hc, entryTexts_request, Operation.schemaNames,
    List.map_append]

theorem at?_requestReference (o : Operation) :
    o.toValue.at? requestReference = o.request.body?.map fun name => .text (schemaReference name) := by
  obtain ⟨summary, description, operationId, request, response⟩ := o
  cases request <;> rfl

theorem at?_responseReference (o : Operation) :
    o.toValue.at? responseReference = o.response.map fun name => .text (schemaReference name) := by
  obtain ⟨summary, description, operationId, request, response⟩ := o
  cases response <;> rfl

/-! ## Documents -/

theorem lookup?_map {α : Type} (name : Text) (value : α → Value) (t : Table Text α) :
    Value.lookup? name (t.map fun e => (.text e.1, value e.2)) = (Table.get? name t).map value :=
  Table.get?_map Key.text value (fun _ _ => Key.text.inj) name t

/-- What a document has under a path with the operations. -/
def pathValue (operations : Table Text Operation) : Value :=
  .object (operations.map fun e => (.text e.1, e.2.toValue))

theorem at?_operation (d : Document) (path method : Text) : d.toValue.at? ["paths", path, method] =
    ((Table.get? path d.paths).bind (Table.get? method)).map Operation.toValue := by
  have h : d.toValue.at? ["paths", path, method] =
      (Value.object (d.paths.map fun e => (.text e.1, pathValue e.2))).at? [path, method] := rfl
  rw [h, Value.at?_object, lookup?_map path pathValue]
  cases Table.get? path d.paths with
  | none => rfl
  | some operations =>
    change (pathValue operations).at? [method] = _
    rw [pathValue, Value.at?_object, lookup?_map method Operation.toValue]
    cases h : Table.get? method operations <;> simp [h, Value.at?]

theorem at?_schema (d : Document) (name : Text) :
    d.toValue.at? ["components", "schemas", name] = (Table.get? name d.schemas).map Schema.toValue := by
  have h : d.toValue.at? ["components", "schemas", name] =
      (Value.object (d.schemas.map fun e => (.text e.1, e.2.toValue))).at? [name] := rfl
  rw [h, Value.at?_object, lookup?_map name Schema.toValue]
  cases Table.get? name d.schemas <;> rfl

def Document.operations (d : Document) : List Operation := d.paths.flatMap fun path => path.2.map (·.2)

/-- What the operations under one path refer to. -/
theorem textsUnder_operations (operations : Table Text Operation) :
    (pathValue operations).textsUnder "$ref" =
      (operations.flatMap fun e => e.2.schemaNames).map schemaReference := by
  rw [pathValue, Value.textsUnder, Value.entryTexts_map "$ref" (fun e : Text × Operation => .text e.1) (fun e => e.2.toValue)
    fun _ => rfl, List.map_flatMap]
  exact List.flatMap_congr fun e _ => textsUnder_operation e.2

/-- A document refers to the schemas of its operations. -/
theorem textsUnder_document (d : Document) :
    d.toValue.textsUnder "$ref" = (d.operations.flatMap Operation.schemaNames).map schemaReference := by
  have hp : Value.entryTexts "$ref" (d.paths.map fun e => (.text e.1, pathValue e.2)) =
      (d.operations.flatMap Operation.schemaNames).map schemaReference := by
    rw [Value.entryTexts_map "$ref" (fun e : Text × Table Text Operation => .text e.1) (fun e => pathValue e.2)
      fun _ => rfl, List.flatMap_congr fun e _ => textsUnder_operations e.2, ← List.map_flatMap, Document.operations,
      List.flatMap_assoc]
    simp only [List.flatMap_map]
  have hs : Value.entryTexts "$ref" (d.schemas.map fun e => (.text e.1, e.2.toValue)) = [] := by
    rw [Value.entryTexts_map "$ref" (fun e : Text × Schema => .text e.1) (fun e => e.2.toValue)
      fun e => e.2.texts_toValue]
    exact List.flatMap_eq_nil_iff.2 fun e _ => e.2.textsUnder_schema
  have h : d.toValue.textsUnder "$ref" =
      Value.entryTexts "$ref" (d.paths.map fun e => (.text e.1, pathValue e.2)) ++
        Value.entryTexts "$ref" (d.schemas.map fun e => (.text e.1, e.2.toValue)) := by
    simp +decide [Document.toValue, pathValue, Value.textsUnder, Value.entryTexts]
  rw [h, hp, hs, List.append_nil]

end OpenApi

end ContractApi
