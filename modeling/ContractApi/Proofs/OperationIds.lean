import ContractApi.Proofs.Collisions
import ContractApi.Proofs.References
import ContractApi.Proofs.WrittenDocument
/-!
# Identifiers of operations

An operation is identified by the name of its function with the first letter in upper case, and not by its method.
Strict assembly compares names and methods, so the identifiers of its documents need not be different.

- The identifiers of a document that was assembled strictly are those of its functions, one for each
  (`Parts.perm_operations`), so they are different exactly if the capitalized names are (`strict_operationIds`).
- Two functions of one name may pass (`repeated_operationId`).
-/

namespace ContractApi

open Abi OpenApi

namespace OpenApi

/-- The values under the names of an object. -/
def below : Value → List Value
  | .object entries => entries.map (·.2)
  | _ => []

/-- The identifiers of the operations of a document. -/
def operationIds (document : Value) : List Value :=
  ((document.at? ["paths"]).toList.flatMap below).flatMap fun operations =>
    (below operations).filterMap (Value.at? ["operationId"])

theorem operationIds_toValue (d : Document) :
    operationIds d.toValue = d.operations.map fun o => .text o.operationId := by
  have hp : (d.toValue.at? ["paths"]).toList.flatMap below = d.paths.map fun e => pathValue e.2 := by
    change ([Value.object (d.paths.map fun e => (.text e.1, pathValue e.2))]).flatMap below = _
    rw [List.flatMap_singleton, below, List.map_map]
    rfl
  have hids : ∀ operations : Table Text Operation, (below (pathValue operations)).filterMap (Value.at? ["operationId"]) =
      operations.map fun e => .text e.2.operationId := by
    intro operations
    rw [pathValue, below, List.map_map, List.filterMap_map, ← List.filterMap_eq_map]
    rfl
  rw [operationIds, hp, List.flatMap_map, List.flatMap_congr fun e _ => hids e.2, Document.operations, List.map_flatMap]
  simp only [List.map_map, Function.comp_def]

namespace Parts

variable {fs : List FunctionRecord} {es : List EventRecord} {rs : List ErrorRecord} (parts : Parts fs es rs)

/-- If nothing collides, the operations of the document are those of the functions. -/
theorem perm_operations (hn : (places fs es rs).Nodup) (contractName : Value) :
    (parts.document contractName).operations.Perm (fs.map parts.operation) := by
  have hentries : (parts.document contractName).operations =
      (Table.entries (parts.document contractName).paths).map fun e => e.2.2 := by
    simp only [Document.operations, Table.entries, List.map_flatMap, List.map_map, Function.comp_def]
  have hfunctions : fs.map parts.operation = parts.operations.map fun e => e.2.2 := by
    rw [operations, List.map_map]
    rfl
  rw [hentries, hfunctions]
  exact (Table.perm_entries_ofNested (parts.nodup_operations hn)).map _

include parts in
/-- If nothing collides, no two functions have the same name and method. -/
theorem pairwise_not_sameOperation (hn : (places fs es rs).Nodup) : fs.Pairwise fun f g => ¬SameOperation f g := by
  have hkeys := parts.nodup_operations hn
  rw [operations, List.map_map, List.nodup_iff_pairwise_ne, List.pairwise_map] at hkeys
  refine hkeys.imp fun {f g} hne hsame => hne ?_
  simp only [Function.comp_apply, methodKey, hsame.1, hsame.2]

end Parts

end OpenApi

/-- The operations of a document that was assembled strictly are identified by the capitalized names of its functions,
one for each. No two functions have the same name and method, but their identifiers are different only if the
capitalized names are. -/
theorem strict_operationIds {raw contractName d : Value}
    (h : (convert raw contractName (.bool true)).result = .ok (.success d)) : ∃ i, ∃ fs : List FunctionRecord,
      (readInterface raw contractName).result = .ok i ∧ i.functions = .list (fs.map .record) ∧
      (∀ f ∈ fs, f.name.IsText) ∧ (fs.Pairwise fun f g => ¬SameOperation f g) ∧
      (operationIds d).Perm (fs.map fun f => .text ("call" ++ f.name.display.capitalizeFirst)) ∧
      ((operationIds d).Nodup ↔
        fs.Pairwise fun f g => f.name.display.capitalizeFirst ≠ g.name.display.capitalizeFirst) := by
  obtain ⟨i, document, hi, ha, rfl⟩ := exists_described h
  obtain ⟨items, fs, es, rs, _, rfl, _, _, _⟩ := readInterface_records hi
  obtain ⟨parts⟩ := exists_parts_of_built (assemble_eq_ok.1 ha).1
  obtain ⟨hn, rfl⟩ := parts.strict_eq_ok.1 ha
  have hids : (operationIds (parts.document (contractNameOf raw contractName)).toValue).Perm
      (fs.map fun f => .text ("call" ++ f.name.display.capitalizeFirst)) := by
    have hmade : (fs.map parts.operation).map (fun o => Value.text o.operationId) =
        fs.map fun f => .text ("call" ++ f.name.display.capitalizeFirst) := by
      rw [List.map_map]
      exact List.map_congr_left fun f hf => congrArg Value.text (operationId_ofFunction (parts.operation_eq f hf)).2
    rw [operationIds_toValue, ← hmade]
    exact (parts.perm_operations hn _).map _
  refine ⟨_, fs, hi, rfl, fun f hf => (operationId_ofFunction (parts.operation_eq f hf)).1, parts.pairwise_not_sameOperation hn,
    hids, ?_⟩
  rw [hids.nodup_iff, List.nodup_iff_pairwise_ne, List.pairwise_map]
  simp only [ne_eq, Value.text.injEq, List.append_cancel_left_eq]

theorem strict_operationIds_overloads : ∃ d, (convert overloads .null (.bool true)).result = .ok (.success d) ∧
    operationIds d ≠ [] ∧ ∃ i, ∃ fs : List FunctionRecord, (readInterface overloads .null).result = .ok i ∧
      i.functions = .list (fs.map .record) ∧
      (operationIds d).Perm (fs.map fun f => .text ("call" ++ f.name.display.capitalizeFirst)) := by
  refine ⟨_, rfl, List.cons_ne_nil _ _, ?_⟩
  obtain ⟨i, fs, hi, hfs, _, _, hids, _⟩ := @strict_operationIds overloads .null _ rfl
  exact ⟨i, fs, hi, hfs, hids⟩

/-- Strict assembly accepts two functions of one name if their methods differ, and their operations have the same
identifier. -/
theorem repeated_operationId : ∃ d, (convert overloads .null (.bool true)).result = .ok (.success d) ∧
    operationIds d = [.text "callMint", .text "callMint"] ∧ ¬(operationIds d).Nodup := by
  refine ⟨_, rfl, rfl, ?_⟩
  exact fun h => (List.nodup_cons.1 h).1 List.mem_cons_self

end ContractApi
