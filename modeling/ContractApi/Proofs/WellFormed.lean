import ContractApi.Abi.Reading
import ContractApi.OpenApi.Document
import ContractApi.Proofs.Outcome
/-!
# Well-formed records

Records are well formed if nothing strays among them and every name is a text. Types, mutabilities and flags may be any
value, and parameters may be nested to any depth.

- Describing anything at all, well formed or not, tells of nothing but types that lie too deep, and fails only for a value
  that is not what is needed (`tame_operation` and those before it).
-/

namespace ContractApi

def Value.IsText (v : Value) : Prop := ∃ t, v = .text t

namespace Abi

mutual

/-- Whether the parameter and all below it are records whose names are texts. -/
def Parameter.WellFormed : Parameter → Prop
  | .record name _ _ _ components => name.IsText ∧ components.WellFormed
  | .stray _ => False

/-- Whether there is no list, or one of well-formed parameters. -/
def Parameters.WellFormed : Parameters → Prop
  | .absent => True
  | .list parameters => Parameters.AllWellFormed parameters
  | .stray _ => False

def Parameters.AllWellFormed : List Parameter → Prop
  | [] => True
  | p :: rest => p.WellFormed ∧ Parameters.AllWellFormed rest

end

theorem Parameters.allWellFormed_iff : ∀ {ps : List Parameter},
    Parameters.AllWellFormed ps ↔ ∀ p ∈ ps, p.WellFormed
  | [] => by simp [Parameters.AllWellFormed]
  | p :: ps => by
    have ih := @Parameters.allWellFormed_iff ps
    simp [Parameters.AllWellFormed, ih]

/-- Whether there is a list, of well-formed parameters. -/
def Parameters.IsList (parameters : Parameters) : Prop := ∃ ps, parameters = .list ps ∧ ∀ p ∈ ps, p.WellFormed

/-- Whether the function has a text for a name, one of the two methods and well-formed inputs and outputs. -/
structure FunctionRecord.WellFormed (f : FunctionRecord) : Prop where
  name : f.name.IsText
  method : f.httpMethod = .text "GET" ∨ f.httpMethod = .text "POST"
  inputs : f.inputs.IsList
  outputs : f.outputs.IsList

/-- Whether the event has a text for a name and well-formed inputs. -/
structure EventRecord.WellFormed (e : EventRecord) : Prop where
  name : e.name.IsText
  inputs : e.inputs.IsList

/-- Whether the error has a text for a name and well-formed inputs. -/
structure ErrorRecord.WellFormed (e : ErrorRecord) : Prop where
  name : e.name.IsText
  inputs : e.inputs.IsList

/-- A function that takes what is given and returns nothing. -/
def taking (name method : Text) (inputs : List Parameter) : FunctionRecord :=
  ⟨name, "nonpayable", .bool false, .bool false, .list inputs, .list [], "", "", method⟩

theorem taking_wellFormed {name method : Text} {inputs : List Parameter} (hm : method = "GET" ∨ method = "POST")
    (hi : ∀ p ∈ inputs, p.WellFormed) : (taking name method inputs).WellFormed where
  name := ⟨name, rfl⟩
  method := hm.imp (congrArg Value.text) (congrArg Value.text)
  inputs := ⟨inputs, rfl, hi⟩
  outputs := ⟨[], rfl, fun _ h => absurd h List.not_mem_nil⟩

/-- The interface that consists of the records. -/
def Interface.ofRecords (contractName : Value) (functions : List FunctionRecord) (events : List EventRecord)
    (errors : List ErrorRecord) : Interface where
  contractName := contractName
  functions := .list (functions.map .record)
  events := .list (events.map .record)
  errors := .list (errors.map .record)

/-- Reading leaves records only. -/
theorem Interface.ofItems_eq (name : Value) (items : List ItemRecord) :
    Interface.ofItems name items = .ofRecords name (items.filterMap ItemRecord.function?)
      (items.filterMap ItemRecord.event?) (items.filterMap ItemRecord.error?) := rfl

/-- An interface of records determines its records. -/
theorem ofRecords_inj {n n' : Value} {fs fs' : List FunctionRecord} {es es' : List EventRecord}
    {rs rs' : List ErrorRecord} (h : Interface.ofRecords n fs es rs = .ofRecords n' fs' es' rs') :
    fs = fs' ∧ es = es' ∧ rs = rs' := by
  have hrecord {α : Type} : Function.Injective (Slot.record (α := α)) := fun _ _ h => Slot.record.inj h
  simp only [Interface.ofRecords, Interface.mk.injEq, Slots.list.injEq, hrecord.list_map.eq_iff] at h
  exact h.2

end Abi

namespace Schema

open Abi

/-! ## Types -/

/-- All that is told of a type is that something in it lies too deep. -/
theorem tame_ofTypeWithin : ∀ (levels : Nat) (type : Value) (members : Members),
    (ofTypeWithin levels type members).Tame
  | 0, type, members => by
    cases type with
    | text type =>
      refine ⟨fun n hn => ⟨type, List.mem_singleton.1 hn⟩, fun failure h => ?_⟩
      cases h
    | null | bool _ | int _ | float _ | list _ | object _ => exact Outcome.tame_pure _
  | levels + 1, type, members => by
    cases type with
    | text type =>
      simp only [ofTypeWithin]
      split
      · split
        · refine (Outcome.tame_ofFault _).bind fun _ => (Outcome.tame_ofFault _).bind fun _ => ?_
          refine (Outcome.tame_mapM ?_ _).bind fun _ => Outcome.tame_pure _
          exact fun m => tame_ofTypeWithin levels _ _
        · exact Outcome.tame_pure _
      · split
        · exact (tame_ofTypeWithin levels _ _).bind fun _ => Outcome.tame_pure _
        · exact Outcome.tame_pure _
    | null | bool _ | int _ | float _ | list _ | object _ => exact Outcome.tame_pure _

end Schema

namespace OpenApi

open Abi

/-! ## Parameters -/

theorem tame_parameterSchema : ∀ p : Parameter, (parameterSchema p).Tame
  | .record .. => Schema.tame_ofTypeWithin _ _ _
  | .stray _ => Outcome.tame_fault _

theorem tame_forNamed {β : Type} (default : Text) (parameters : Parameters) {step : Key × Parameter → Outcome β}
    (hs : ∀ e, (step e).Tame) : (namedParameters default parameters >>= fun named => named.mapM step).Tame :=
  (Outcome.tame_ofFault _).bind fun _ => Outcome.tame_mapM hs _

/-! ## Schemas -/

theorem tame_parameterFields (default : Text) (parameters : Parameters) :
    (parameterFields default parameters).Tame :=
  tame_forNamed default parameters fun _ => (tame_parameterSchema _).bind fun _ => Outcome.tame_pure _

theorem tame_inputSchema : ∀ s : Slot FunctionRecord, (inputSchema s).Tame
  | .record _ => (tame_parameterFields _ _).bind fun _ => Outcome.tame_pure _
  | .stray _ => Outcome.tame_fault _

theorem tame_outputSchema : ∀ s : Slot FunctionRecord, (outputSchema s).Tame
  | .record f => by
    refine (Outcome.tame_ofFault _).bind fun only => ?_
    cases only with
    | none => exact (tame_parameterFields _ _).bind fun _ => Outcome.tame_pure _
    | some p => exact tame_parameterSchema p
  | .stray _ => Outcome.tame_fault _

theorem tame_eventSchema : ∀ s : Slot EventRecord, (eventSchema s).Tame
  | .record e => by
    refine (Outcome.tame_ofFault _).bind fun _ => (Outcome.tame_mapM (fun e => ?_) _).bind fun _ => Outcome.tame_pure _
    exact (tame_parameterSchema e.2).bind fun _ => Outcome.tame_pure _
  | .stray _ => Outcome.tame_fault _

theorem tame_errorSchema : ∀ s : Slot ErrorRecord, (errorSchema s).Tame
  | .record _ => (tame_parameterFields _ _).bind fun _ => Outcome.tame_pure _
  | .stray _ => Outcome.tame_fault _

/-! ## Operations -/

theorem tame_queryParameters (inputs : Parameters) : (queryParameters inputs).Tame :=
  tame_forNamed "param" inputs fun _ => (tame_parameterSchema _).bind fun _ => Outcome.tame_pure _

theorem tame_requestOf (f : FunctionRecord) : (requestOf f).Tame := by
  unfold requestOf
  split
  · split
    · split
      · rw [map_eq_pure_bind]
        exact (tame_queryParameters _).bind fun _ => Outcome.tame_pure _
      · exact Outcome.tame_pure _
    · exact Outcome.tame_pure _
  · exact Outcome.tame_pure _

theorem tame_operation : ∀ s : Slot FunctionRecord, (Operation.ofFunction s).Tame
  | .record f => (Outcome.tame_ofFault _).bind fun _ => (tame_requestOf f).bind fun _ => Outcome.tame_pure _
  | .stray _ => Outcome.tame_fault _

end OpenApi

end ContractApi
