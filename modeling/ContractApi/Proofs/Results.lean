import ContractApi.Conversion
import ContractApi.Proofs.Parts
import ContractApi.Proofs.Reading
/-!
# The results of conversions

A conversion always gives a result, and the kind of the result says how far the document got.

- A document is rejected if validation finds something; this includes documents in which there is nothing to convert
  (`convert_of_rejected`).
- Any other is read and described. If this succeeds, so does the conversion (`convert_of_described`); if not, the
  failure is one of reading or of assembling, and the result has its wording (`convert_of_failed`).
- The kinds of result exclude each other, and describing a document fails by them (`convert_tagged`).
-/

namespace ContractApi

open Abi OpenApi

/-! ## Descriptions -/

/-- Reads a document and describes its interface. -/
def description (raw contractName strict : Value) : Outcome Document := do
  assemble (.record (← readInterface raw contractName)) strict

/-- What is described is a description. -/
theorem checkDescription_toValue (d : Document) : checkDescription d.toValue = .ok () := by
  rfl

/-- A description is not assembled only if a value is not what is needed or names collide. -/
theorem assemble_eq_error {i : Interface} {strict : Value} {failure : Failure}
    (h : (assemble (.record i) strict).result = .error failure) :
    (∃ f, failure = .unassemblable f) ∨ ∃ names, failure = .collisions names := by
  have hfaults : (buildDocument (.record i)).OnlyFaults :=
    onlyFaults_enterAll fun o ho => (tame_documentEntries i o ho).onlyFaults
  cases hb : (buildDocument (.record i)).result with
  | error failure' =>
    obtain ⟨f, rfl⟩ := hfaults failure' hb
    rw [assemble_of_failed hb] at h
    cases h
    exact .inl ⟨f, rfl⟩
  | ok d =>
    rw [assemble_of_built hb] at h
    split at h
    · cases h
      exact .inr ⟨_, rfl⟩
    · cases h

theorem stage_assemble {i : Interface} {strict : Value} {failure : Failure}
    (h : (assemble (.record i) strict).result = .error failure) : failure.stage = .assembling := by
  rcases assemble_eq_error h with ⟨f, rfl⟩ | ⟨names, rfl⟩ <;> rfl

theorem description_eq_ok {raw contractName strict : Value} {d : Document} :
    (description raw contractName strict).result = .ok d ↔
      ∃ i, (readInterface raw contractName).result = .ok i ∧ (assemble (.record i) strict).result = .ok d :=
  Outcome.bind_eq_ok

/-- Whether a document fails to be read, or is read and fails to be described. -/
inductive FailsWith (raw contractName strict : Value) (failure : Failure) : Prop
  | reading (h : (readInterface raw contractName).result = .error failure) (hstage : failure.stage = .reading)
  | assembling {i : Interface} (hi : (readInterface raw contractName).result = .ok i)
      (h : (assemble (.record i) strict).result = .error failure) (hstage : failure.stage = .assembling)

/-- Reading and describing fail as such. -/
theorem description_eq_error {raw contractName strict : Value} {failure : Failure} :
    (description raw contractName strict).result = .error failure ↔ FailsWith raw contractName strict failure := by
  unfold description
  constructor
  · intro h
    cases hr : (readInterface raw contractName).result with
    | error failure' =>
      rw [Outcome.bind_of_error hr] at h
      cases h
      exact .reading hr (stage_readInterface hr)
    | ok i =>
      rw [Outcome.bind_of_ok hr] at h
      exact .assembling hr h (stage_assemble h)
  · rintro (⟨h, _⟩ | ⟨hi, h, _⟩)
    · rw [Outcome.bind_of_error h]
    · rw [Outcome.bind_of_ok hi, h]

/-- What was built is never the cause. -/
theorem FailsWith.ne_invalidDocument {raw contractName strict : Value} {failure : Failure}
    (h : FailsWith raw contractName strict failure) : failure ≠ .invalidDocument := by
  rintro rfl
  rcases h with ⟨_, hstage⟩ | ⟨_, h, _⟩
  · cases hstage
  · rcases assemble_eq_error h with ⟨f, hf⟩ | ⟨names, hf⟩ <;> cases hf

theorem FailsWith.stage_ne_operation {raw contractName strict : Value} {failure : Failure}
    (h : FailsWith raw contractName strict failure) : failure.stage ≠ .operation := by
  rcases h with ⟨_, hstage⟩ | ⟨_, _, hstage⟩ <;> simp [hstage]

/-! ## The three results -/

/-- Whether there is nothing to convert, or validation finds something. -/
def IsRejected (raw : Value) : Prop := raw = .null ∨ raw = .object [] ∨ (validate raw).isValid = false

/-- What a document is rejected for. -/
def rejection (raw : Value) : List Text := if isEmptyBody raw then [Conversion.emptyBody] else (validate raw).errors

theorem isEmptyBody_iff {raw : Value} : isEmptyBody raw = true ↔ raw = .null ∨ raw = .object [] := by
  unfold isEmptyBody
  split <;> simp_all

/-- Validation finds something in a document in which there is nothing to convert. -/
theorem isRejected_iff {raw : Value} : IsRejected raw ↔ (validate raw).isValid = false := by
  constructor
  · rintro (rfl | rfl | h)
    · rfl
    · rfl
    · exact h
  · exact fun h => .inr (.inr h)

theorem errors_ne_nil {v : Validation} (h : v.isValid = false) : v.errors ≠ [] := by
  intro e
  rw [Validation.isValid, e] at h
  cases h

theorem rejection_ne_nil {raw : Value} (h : IsRejected raw) : rejection raw ≠ [] := by
  unfold rejection
  split
  · exact List.cons_ne_nil _ _
  · exact errors_ne_nil (isRejected_iff.1 h)

/-- The summary of a document that is rejected. -/
def rejectionSummary (raw : Value) : Text :=
  if isEmptyBody raw then Conversion.emptyBody else "Invalid ABI JSON structure"

theorem convert_of_rejected {raw : Value} (h : IsRejected raw) (contractName strict : Value) :
    (convert raw contractName strict).result = .ok (.invalid (rejectionSummary raw) (rejection raw)) := by
  have hv := isRejected_iff.1 h
  unfold rejectionSummary rejection
  cases he : isEmptyBody raw with
  | true => simp [convert, Conversion.run, he]
  | false =>
    simp [convert, Conversion.run, he, Conversion.getValidation, Conversion.currentValidation, hv, Outcome.andThen]

/-- A conversion that has kept nothing yet reads the document and describes its interface. -/
theorem getDocument_eq {c : Conversion} (hp : c.parsed = none) (hd : c.document = none) :
    (c.getDocument).1 = Document.toValue <$> description c.raw c.contractName c.strict := by
  have h : (c.getDocument).1 =
      (Slot.record <$> readInterface c.raw c.contractName) >>= fun i =>
        assemble i c.strict >>= fun d => pure d.toValue := by
    simp only [Conversion.getDocument, Conversion.getParsed, hp, hd]
  rw [h, description]
  simp only [map_eq_pure_bind, bind_assoc, pure_bind]

theorem validationNotices_of_isValid {v : Validation} (h : v.isValid = true) : Conversion.validationNotices v = [] := by
  cases v with
  | noItemList | noItems => rfl
  | checked problems =>
    cases problems with
    | nil => rfl
    | cons p problems => cases h

/-- A document that is not rejected is described, and nothing is told of its validation. -/
theorem run_of_valid {raw : Value} (h : ¬IsRejected raw) (contractName strict : Value) :
    let c : Conversion := { raw, contractName, strict, validation := some (validate raw) }
    Conversion.run { raw, contractName, strict } = (Conversion.resultOf c.getDocument.1, c.getDocument.2) := by
  have hv : (validate raw).isValid = true := by
    simpa [isRejected_iff] using h
  have he : isEmptyBody raw = false := by
    rw [← Bool.not_eq_true, isEmptyBody_iff]
    exact fun he => h (he.elim .inl fun he => .inr (.inl he))
  simp [Conversion.run, he, Conversion.getValidation, Conversion.currentValidation, hv, Outcome.andThen,
    validationNotices_of_isValid hv]

/-- A document that is not rejected leads to the result that its description leads to. -/
theorem convert_of_valid {raw : Value} (h : ¬IsRejected raw) (contractName strict : Value) :
    convert raw contractName strict =
      Conversion.resultOf (Document.toValue <$> description raw contractName strict) := by
  rw [convert, run_of_valid h]
  exact congrArg Conversion.resultOf (getDocument_eq rfl rfl)

/-- The result goes by the result of describing only. -/
theorem resultOf_result_congr {x y : Outcome Value} (h : x.result = y.result) :
    (Conversion.resultOf x).result = (Conversion.resultOf y).result := by
  unfold Conversion.resultOf
  rw [h]
  split <;> rfl

/-- A description is a success. -/
theorem resultOf_of_described {x : Outcome Value} {d : Document} (h : x.result = .ok d.toValue) :
    Conversion.resultOf x = ⟨x.notices, .ok (.success d.toValue)⟩ := by
  rw [Conversion.resultOf, h, Except.bind, checkDescription_toValue, Except.map]

/-- A failure is told, with the wording of those that are not faults of an operation. -/
theorem resultOf_of_failed {x : Outcome Value} {failure : Failure} (h : x.result = .error failure)
    (hstage : failure.stage ≠ .operation) :
    (Conversion.resultOf x).result = .ok (.failed "Failed to process ABI" failure.message) := by
  rw [Conversion.resultOf, h]
  cases failure with
  | fault f => exact absurd rfl hstage
  | _ => rfl

theorem convert_of_described {raw contractName strict : Value} {d : Document} (h : ¬IsRejected raw)
    (hd : (description raw contractName strict).result = .ok d) :
    (convert raw contractName strict).result = .ok (.success d.toValue) := by
  rw [convert_of_valid h, resultOf_of_described (Outcome.map_eq_ok.2 ⟨d, hd, rfl⟩)]

theorem convert_of_failed {raw contractName strict : Value} {failure : Failure} (h : ¬IsRejected raw)
    (hd : (description raw contractName strict).result = .error failure) :
    (convert raw contractName strict).result = .ok (.failed "Failed to process ABI" failure.message) := by
  have hv : (Document.toValue <$> description raw contractName strict).result = .error failure := by
    rw [map_eq_pure_bind, Outcome.bind_of_error hd]
  rw [convert_of_valid h]
  exact resultOf_of_failed hv (description_eq_error.1 hd).stage_ne_operation

/-! ## Kinds of result -/

/-- Whether the result of a conversion says what became of the document. -/
structure ConversionResult.Tells (raw contractName strict : Value) (r : ConversionResult) : Prop where
  /-- It is invalid exactly if the document is rejected. -/
  invalid : r.tag = .invalidAbi ↔ IsRejected raw
  rejected : r.tag = .invalidAbi → r.document = .null ∧ r.errors = rejection raw ∧ r.errors ≠ []
  /-- It is a success exactly if the document is not rejected, is read, and is described. -/
  success : r.tag = .success ↔ ¬IsRejected raw ∧ ∃ i d, (readInterface raw contractName).result = .ok i ∧
    (assemble (.record i) strict).result = .ok d
  described : r.tag = .success → r.errors = [] ∧ ∃ i d, (readInterface raw contractName).result = .ok i ∧
    (assemble (.record i) strict).result = .ok d ∧ r.document = d.toValue
  /-- It is a failure exactly if the document is not rejected and fails to be read or to be described. -/
  processingError : r.tag = .processingError ↔ ¬IsRejected raw ∧ ∃ failure, FailsWith raw contractName strict failure
  failed : r.tag = .processingError → ∃ failure, FailsWith raw contractName strict failure ∧
    failure ≠ .invalidDocument ∧ r = .failed "Failed to process ABI" failure.message

theorem tells_invalid {raw : Value} (h : IsRejected raw) (contractName strict : Value) :
    (ConversionResult.invalid (rejectionSummary raw) (rejection raw)).Tells raw contractName strict where
  invalid := iff_of_true rfl h
  rejected := fun _ => ⟨rfl, rfl, rejection_ne_nil h⟩
  success := iff_of_false (fun e => by cases e) fun hn => hn.1 h
  described := fun e => by cases e
  processingError := iff_of_false (fun e => by cases e) fun hn => hn.1 h
  failed := fun e => by cases e

theorem tells_success {raw contractName strict : Value} {d : Document} (h : ¬IsRejected raw)
    (hd : (description raw contractName strict).result = .ok d) :
    (ConversionResult.success d.toValue).Tells raw contractName strict := by
  obtain ⟨i, hi, ha⟩ := description_eq_ok.1 hd
  have hfails : ¬∃ failure, FailsWith raw contractName strict failure := by
    rintro ⟨failure, hf⟩
    cases hd.symm.trans (description_eq_error.2 hf)
  exact {
    invalid := iff_of_false (fun e => by cases e) h
    rejected := fun e => by cases e
    success := iff_of_true rfl ⟨h, i, d, hi, ha⟩
    described := fun _ => ⟨rfl, i, d, hi, ha, rfl⟩
    processingError := iff_of_false (fun e => by cases e) fun hn => hfails hn.2
    failed := fun e => by cases e }

theorem tells_failed {raw contractName strict : Value} {failure : Failure} (h : ¬IsRejected raw)
    (hf : FailsWith raw contractName strict failure) :
    (ConversionResult.failed "Failed to process ABI" failure.message).Tells raw contractName strict := by
  have hdescribed : ¬∃ i d, (readInterface raw contractName).result = .ok i ∧
      (assemble (.record i) strict).result = .ok d := by
    rintro ⟨i, d, hi, ha⟩
    cases (description_eq_error.2 hf).symm.trans (description_eq_ok.2 ⟨i, hi, ha⟩)
  exact {
    invalid := iff_of_false (fun e => by cases e) h
    rejected := fun e => by cases e
    success := iff_of_false (fun e => by cases e) fun hn => hdescribed hn.2
    described := fun e => by cases e
    processingError := iff_of_true rfl ⟨h, failure, hf⟩
    failed := fun _ => ⟨failure, hf, hf.ne_invalidDocument, rfl⟩ }

/-- Whether describing a document returns or fails as the result of its conversion says. -/
structure ConversionResult.Decides (r : ConversionResult) (described : Except Failure Value) : Prop where
  success : ∀ document, described = .ok document ↔ r.tag = .success ∧ document = r.document
  invalid : (∃ failure, described = .error failure ∧ failure.stage = .reading) ↔ r.tag = .invalidAbi
  processingError : (∃ failure, described = .error failure ∧ failure.stage = .assembling) ↔ r.tag = .processingError
  message : ∀ failure, described = .error failure → ∃ summary, r.message? = some summary ∧
    failure.message = summary ++ ": " ++ Text.joined "; " r.errors

theorem decides_describe {raw contractName strict : Value} {r : ConversionResult}
    (h : (convert raw contractName strict).result = .ok r) : r.Decides (describe raw contractName strict).result := by
  rw [describe, Outcome.bind_of_ok h]
  cases r with
  | success document =>
    constructor <;> simp [ConversionResult.tag, ConversionResult.document, eq_comm]
  | invalid summary problems =>
    constructor <;> simp [Outcome.fail, ConversionResult.tag, ConversionResult.message?, ConversionResult.errors,
      Failure.stage, Failure.message]
  | failed summary cause =>
    constructor <;> simp [Outcome.fail, ConversionResult.tag, ConversionResult.message?, ConversionResult.errors,
      Failure.stage, Failure.message]

/-- Every conversion gives a result that says what became of the document, and describing the document follows it. -/
theorem convert_tagged (raw contractName strict : Value) : ∃ r, (convert raw contractName strict).result = .ok r ∧
    r.Tells raw contractName strict ∧ r.Decides (describe raw contractName strict).result := by
  by_cases h : IsRejected raw
  · have hc := convert_of_rejected h contractName strict
    exact ⟨_, hc, tells_invalid h contractName strict, decides_describe hc⟩
  · cases hd : (description raw contractName strict).result with
    | error failure =>
      have hc := convert_of_failed h hd
      exact ⟨_, hc, tells_failed h (description_eq_error.1 hd), decides_describe hc⟩
    | ok d =>
      have hc := convert_of_described h hd
      exact ⟨_, hc, tells_success h hd, decides_describe hc⟩

end ContractApi
