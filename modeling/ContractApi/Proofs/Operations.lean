import ContractApi.Proofs.Navigation
import ContractApi.Proofs.WellFormed
/-!
# What an operation takes and returns

- The request of an operation carries a body exactly if the function takes something and its method is not `GET`
  (`body?_requestOf`), and it carries query parameters exactly if the function takes something and its method is `GET`
  (`isQuery_requestOf`).
- A response has content exactly if the function returns something, and refers to the schema of what it returns
  (`response_ofFunction`). All references of an operation stand in its request or its response
  (`mem_textsUnder_operation`).
- An operation is called by the name of its function, with the first letter in upper case (`operationId_ofFunction`).
- How this shows in the JSON form (`isSome_requestBody`, `isSome_parameters`, `isSome_content`).
-/

namespace ContractApi.OpenApi

open ContractApi.Abi

/-- Whether the request carries query parameters. -/
def Request.isQuery : Request → Bool
  | .query _ => true
  | _ => false

/-- Requests by what the function takes and by its method. -/
theorem requestOf_cases {f : FunctionRecord} {r : Request} (h : (requestOf f).result = .ok r) :
    f.inputs.isPresent = false ∧ r = .empty ∨
      f.inputs.isPresent = true ∧ f.httpMethod = .text "GET" ∧ (∃ parameters, r = .query parameters) ∨
        f.inputs.isPresent = true ∧ f.httpMethod ≠ .text "GET" ∧ r = .body (requestName f.name) := by
  unfold requestOf at h
  by_cases hi : f.inputs.isPresent = true
  · rw [if_pos hi] at h
    cases hm : f.httpMethod with
    | text method =>
      rw [hm] at h
      by_cases hg : method = "GET"
      · simp only [hg, if_true] at h
        obtain ⟨parameters, _, rfl⟩ := Outcome.map_eq_ok.1 h
        exact .inr (.inl ⟨hi, by rw [hg], parameters, rfl⟩)
      · simp only [if_neg hg] at h
        cases h
        exact .inr (.inr ⟨hi, fun h => hg (Value.text.inj h), rfl⟩)
    | null | bool _ | int _ | float _ | list _ | object _ =>
      rw [hm] at h
      cases h
      exact .inr (.inr ⟨hi, by simp, rfl⟩)
  · rw [if_neg hi] at h
    cases h
    exact .inl ⟨by simpa using hi, rfl⟩

/-- There is a body exactly if something is taken otherwise than by `GET`. -/
theorem body?_requestOf {f : FunctionRecord} {r : Request} (h : (requestOf f).result = .ok r) (name : Text) :
    r.body? = some name ↔ f.inputs.isPresent = true ∧ f.httpMethod ≠ .text "GET" ∧ name = requestName f.name := by
  rcases requestOf_cases h with ⟨hi, rfl⟩ | ⟨hi, hm, parameters, rfl⟩ | ⟨hi, hm, rfl⟩
  · simp [Request.body?, hi]
  · simp [Request.body?, hm]
  · simp [Request.body?, hi, hm, eq_comm]

/-- There are query parameters exactly if something is taken by `GET`. -/
theorem isQuery_requestOf {f : FunctionRecord} {r : Request} (h : (requestOf f).result = .ok r) :
    r.isQuery = true ↔ f.inputs.isPresent = true ∧ f.httpMethod = .text "GET" := by
  rcases requestOf_cases h with ⟨hi, rfl⟩ | ⟨hi, hm, parameters, rfl⟩ | ⟨hi, hm, rfl⟩
  · simp [Request.isQuery, hi]
  · simp [Request.isQuery, hi, hm]
  · simp [Request.isQuery, hm]

/-- The request and the response of a function's operation. -/
theorem ofFunction_eq_ok {f : FunctionRecord} {o : Operation} (h : (Operation.ofFunction (.record f)).result = .ok o) :
    (requestOf f).result = .ok o.request ∧
      o.response = if f.outputs.isPresent then some (responseName f.name) else none := by
  obtain ⟨capital, _, h⟩ := Outcome.bind_eq_ok.1 h
  obtain ⟨request, hr, h⟩ := Outcome.bind_eq_ok.1 h
  cases h
  exact ⟨hr, rfl⟩

theorem response_ofFunction {f : FunctionRecord} {o : Operation}
    (h : (Operation.ofFunction (.record f)).result = .ok o) (name : Text) :
    o.response = some name ↔ f.outputs.isPresent = true ∧ name = responseName f.name := by
  rw [(ofFunction_eq_ok h).2]
  cases f.outputs.isPresent <;> simp [eq_comm]

/-- The name of a function that has an operation is a text, by which the operation is called. -/
theorem operationId_ofFunction {f : FunctionRecord} {o : Operation}
    (h : (Operation.ofFunction (.record f)).result = .ok o) :
    f.name.IsText ∧ o.operationId = "call" ++ f.name.display.capitalizeFirst := by
  obtain ⟨capital, hc, h⟩ := Outcome.bind_eq_ok.1 h
  obtain ⟨request, _, h⟩ := Outcome.bind_eq_ok.1 h
  cases h
  have hc := Outcome.ofFault_eq_ok.1 hc
  unfold capitalized at hc
  split at hc
  · rename_i name hname
    cases hc
    rw [hname]
    exact ⟨⟨name, rfl⟩, rfl⟩
  all_goals cases hc

/-! ## The JSON form -/

theorem isSome_requestBody (o : Operation) : (o.toValue.at? ["requestBody"]).isSome = o.request.body?.isSome := by
  obtain ⟨summary, description, operationId, request, response⟩ := o
  cases request <;> rfl

theorem isSome_parameters (o : Operation) : (o.toValue.at? ["parameters"]).isSome = o.request.isQuery := by
  obtain ⟨summary, description, operationId, request, response⟩ := o
  cases request <;> rfl

theorem isSome_content (o : Operation) :
    (o.toValue.at? ["responses", "200", "content"]).isSome = o.response.isSome := by
  obtain ⟨summary, description, operationId, request, response⟩ := o
  cases response <;> rfl

/-- Every reference of an operation stands in its request or in its response. -/
theorem mem_textsUnder_operation {o : Operation} {ref : Text} (h : ref ∈ o.toValue.textsUnder "$ref") :
    o.toValue.at? requestReference = some (.text ref) ∨ o.toValue.at? responseReference = some (.text ref) := by
  rw [textsUnder_operation, Operation.schemaNames] at h
  obtain ⟨name, hname, rfl⟩ := List.mem_map.1 h
  rw [at?_requestReference, at?_responseReference]
  rcases List.mem_append.1 hname with hr | hb
  · rw [Option.mem_toList.1 hr]
    exact .inr rfl
  · rw [Option.mem_toList.1 hb]
    exact .inl rfl

end ContractApi.OpenApi
