import ContractApi.Proofs.AfterReading
import ContractApi.Proofs.ReadMembers
/-!
# What records are told apart by

A record keeps a signature and a hash that were computed from its item in the document. Both can be computed again from
the record alone.

- `Parameters.types?` are the types of parameters that were read as they were written, and `Parameters.canonicalTypes?`
  their canonical types. They are those of the document (`types?_read`, `canonicalTypes?_read`).
- So the signature and the hash of every record are those that its name and its inputs give (`function_madeFrom`,
  `event_madeFrom`, `error_madeFrom`).
- There is a record for each item of its kind, in order (`Picks.forall₂`), so the selectors of a document are those
  of its records (`selectors_of_records`).
-/

namespace ContractApi

namespace Abi

/-! ## Types of records -/

/-- The type of a parameter as it was written, if it is a text. -/
def Parameter.type? : Parameter → Option Text
  | .record _ (.text type) _ _ _ => some type
  | _ => none

/-- The types of parameters as they were written, if all of them are texts. -/
def Parameters.types? : Parameters → Option (List Text)
  | .absent => some []
  | .list ps => ps.mapM Parameter.type?
  | .stray _ => none

mutual

/-- The canonical type of a parameter, if there is one. -/
def Parameter.canonicalType? : Parameter → Option Text
  | .record _ (.text type) _ _ members =>
    if tupleWord.isPrefixOf type then do
      let types ← members.canonicalTypes?
      return "(" ++ Text.joined "," types ++ ")" ++ type.drop tupleWord.length
    else some (expandAliases type)
  | _ => none

/-- The canonical types of parameters, if all of them have one. No list has the same as an empty one. -/
def Parameters.canonicalTypes? : Parameters → Option (List Text)
  | .absent => some []
  | .list ps => Parameters.canonicalTypesOf? ps
  | .stray _ => none

def Parameters.canonicalTypesOf? : List Parameter → Option (List Text)
  | [] => some []
  | p :: rest => do return (← p.canonicalType?) :: (← Parameters.canonicalTypesOf? rest)

end

/-! ## Types that were read -/

theorem joinTexts_eq_ok {separator t : Text} {parts : List Value} (h : joinTexts separator parts = .ok t) :
    ∃ texts, parts = texts.map .text ∧ t = Text.joined separator texts := by
  obtain ⟨texts, htexts, h⟩ := except_bind_eq_ok.1 h
  cases h
  refine ⟨texts, ?_, rfl⟩
  have hparts : List.Forall₂ (fun e text => e.1 = Value.text text) parts.zipIdx texts := by
    refine (except_mapM_eq_ok.1 htexts).imp fun e text he => ?_
    obtain ⟨part, index⟩ := e
    cases part with
    | text t =>
      cases he
      rfl
    | _ => cases he
  calc parts = parts.zipIdx.map (·.1) := List.zipIdx_map_fst 0 parts |>.symm
    _ = texts.map .text := List.forall₂_eq_eq_eq ▸ (List.forall₂_map_left_iff.2 (List.forall₂_map_right_iff.2 hparts))

variable {entries : List (Key × Value)} {levels : Nat}

/-- The signature of a name and types; a name that counts as nothing is empty. -/
def signatureOf (name : Value) (types : List Text) : Text :=
  signatureText (name.orElse "").display (Text.joined "," types)

theorem signatureOf_orElse (name : Value) (types : List Text) :
    signatureOf (name.orElse "") types = signatureOf name types := by
  rw [signatureOf, Schema.orElse_orElse_empty, signatureOf]

/-- A plain signature is that of types which all are texts. -/
theorem plainSignature_eq_ok {t : Text} (h : plainSignature (.object entries) = .ok t) : ∃ ps types,
    listed (Value.field "inputs" entries) = .ok ps ∧ t = signatureOf (Value.field "name" entries) types ∧
      List.Forall₂ (fun p type => ∃ es, p = .object es ∧ (Value.lookup? "type" es).getD "" = .text type) ps types := by
  obtain ⟨_, he, h⟩ := except_bind_eq_ok.1 h
  cases he
  obtain ⟨ps, hps, h⟩ := except_bind_eq_ok.1 h
  obtain ⟨values, hvalues, h⟩ := except_bind_eq_ok.1 h
  obtain ⟨joined, hjoined, h⟩ := except_bind_eq_ok.1 h
  cases h
  obtain ⟨types, rfl, rfl⟩ := joinTexts_eq_ok hjoined
  refine ⟨ps, types, hps, rfl, ?_⟩
  refine (List.forall₂_map_right_iff.1 (except_mapM_eq_ok.1 hvalues)).imp fun p type hp => ?_
  cases p with
  | object es => exact ⟨es, rfl, Except.ok.inj hp⟩
  | _ => cases hp

theorem canonicalSignature_eq_ok {t : Text} (h : canonicalSignature (.object entries) = .ok t) : ∃ ps types,
    listed (Value.field "inputs" entries) = .ok ps ∧ canonicalTypes ps = .ok types ∧
      t = signatureOf (Value.field "name" entries) types := by
  obtain ⟨_, he, h⟩ := except_bind_eq_ok.1 h
  cases he
  obtain ⟨ps, hps, h⟩ := except_bind_eq_ok.1 h
  obtain ⟨types, htypes, h⟩ := except_bind_eq_ok.1 h
  cases h
  exact ⟨ps, types, hps, htypes, rfl⟩

/-- Parameters that were read have the types that are written in the document. -/
theorem types?_read {ps : List Value} {qs : List Parameter} {types : List Text}
    (h : List.Forall₂ (fun p q => readParameter levels p = .ok q) ps qs)
    (ht : List.Forall₂ (fun p type => ∃ es, p = .object es ∧ (Value.lookup? "type" es).getD "" = .text type) ps types) :
    (Parameters.list qs).types? = some types := by
  refine mapM_eq_some_of_forall₂ (forall₂_of_left ?_ h ht)
  rintro _ q type hq ⟨es, rfl, htype⟩
  obtain ⟨_, v, members, he, hl, _, rfl⟩ := readParameter_eq_ok hq
  cases he
  rw [hl] at htype
  cases htype
  rfl

/-- Whether members that are read with at most `levels` levels keep their canonical types. -/
def KeepsCanonicalTypes (levels : Nat) : Prop := ∀ {v : Value} {members : Parameters} {types : List Text},
  readMembers levels v = .ok members → canonicalTypesIn v = .ok types → members.canonicalTypes? = some types

theorem canonicalType?_read (hm : KeepsCanonicalTypes levels) {p : Value} {q : Parameter} {t : Text}
    (h : readParameter levels p = .ok q) (ht : canonicalType p = .ok t) : q.canonicalType? = some t := by
  obtain ⟨entries, type, members, rfl, hl, hmembers, rfl⟩ := readParameter_eq_ok h
  rw [canonicalType, hl, Option.getD_some] at ht
  cases type with
  | text type =>
    simp only [Parameter.canonicalType?] at ht ⊢
    by_cases hp : tupleWord.isPrefixOf type = true
    · rw [if_pos hp, memberTypes_eq] at ht
      obtain ⟨types, htypes, ht⟩ := except_bind_eq_ok.1 ht
      cases ht
      rw [if_pos hp, hm hmembers htypes]
      rfl
    · rw [if_neg hp] at ht
      cases ht
      rw [if_neg hp]
  | _ => cases ht

theorem canonicalTypesOf?_read (hm : KeepsCanonicalTypes levels) {ps : List Value} {qs : List Parameter}
    {types : List Text} (h : List.Forall₂ (fun p q => readParameter levels p = .ok q) ps qs)
    (ht : canonicalTypes ps = .ok types) : Parameters.canonicalTypesOf? qs = some types := by
  induction h generalizing types with
  | nil =>
    cases ht
    rfl
  | cons hq _ ih =>
    rw [canonicalTypes] at ht
    obtain ⟨t, hp, ht⟩ := except_bind_eq_ok.1 ht
    obtain ⟨rest, hrest, ht⟩ := except_bind_eq_ok.1 ht
    cases ht
    rw [Parameters.canonicalTypesOf?, canonicalType?_read hm hq hp, ih hrest]
    rfl

theorem canonicalTypesIn_of_not_truthy {v : Value} (h : v.isTruthy = false) : canonicalTypesIn v = .ok [] := by
  have hl := listed_of_not_truthy h
  cases v with
  | list items =>
    cases items with
    | nil => rfl
    | cons _ _ => cases h
  | _ =>
    simp only [canonicalTypesIn, hl]
    rfl

/-- Members that were read have the canonical types that they have in the document. -/
theorem canonicalTypes?_read : ∀ levels : Nat, KeepsCanonicalTypes levels
  | levels, v, members, types, h, ht => by
    rcases readMembers_eq_ok h with ⟨hv, hmembers⟩ | ⟨n, ps, qs, rfl, rfl, rfl, hread⟩
    · rw [canonicalTypesIn_of_not_truthy hv] at ht
      cases ht
      rcases hmembers with rfl | rfl
      · rfl
      · rfl
    · rw [canonicalTypesIn] at ht
      exact canonicalTypesOf?_read (canonicalTypes?_read n) hread ht

/-! ## Identifications -/

/-- What a record has that tells it from others. -/
structure Identification where
  name : Value
  inputs : Parameters
  signature : Value
  /-- A hash of the canonical signature. -/
  digest : Value

def FunctionRecord.identification (f : FunctionRecord) : Identification := ⟨f.name, f.inputs, f.signature, f.selector⟩

def EventRecord.identification (e : EventRecord) : Identification := ⟨e.name, e.inputs, e.signature, e.topic⟩

def ErrorRecord.identification (e : ErrorRecord) : Identification := ⟨e.name, e.inputs, e.signature, e.selector⟩

namespace Identification

/-- Whether the signature and the hash are those that the name and the inputs give. -/
structure Recomputes (hash : Text → Except Fault Text) (x : Identification) : Prop where
  signature : ∃ types, x.inputs.types? = some types ∧ x.signature = .text (signatureOf x.name types)
  digest : ∃ types digest, x.inputs.canonicalTypes? = some types ∧ hash (signatureOf x.name types) = .ok digest ∧
    x.digest = .text digest

/-- The hash under the canonical signature that the name and the inputs give. -/
def entry? (x : Identification) : Option (Text × Text) :=
  match x.inputs.canonicalTypes?, x.digest with
  | some types, .text digest => some (signatureOf x.name types, digest)
  | _, _ => none

/-- The table of hashes under canonical signatures, for records in order. -/
def table? (xs : List Identification) : Option (Table Text Text) := (xs.mapM entry?).map Table.ofList

/-- Whether the identification is that of a record of the item, and what is listed of either is the same. -/
structure MadeFrom (hash : Text → Except Fault Text) (item : Value) (x : Identification) : Prop where
  recomputes : x.Recomputes hash
  entry_eq : ∀ {t digest : Text}, canonicalSignature item = .ok t → (canonicalSignature item >>= hash) = .ok digest →
    x.entry? = some (t, digest)

end Identification

theorem madeFrom_of_read {hash : Text → Except Fault Text} {inputs : List Parameter} {signature digest : Text}
    (hi : readParameters (Value.field "inputs" entries) = .ok inputs)
    (hs : plainSignature (.object entries) = .ok signature)
    (hd : (canonicalSignature (.object entries) >>= hash) = .ok digest) : Identification.MadeFrom hash (.object entries)
      ⟨Value.field "name" entries, .list inputs, .text signature, .text digest⟩ := by
  obtain ⟨n, ps, _, hps, hread⟩ := readParametersWithin_eq_ok hi
  obtain ⟨ps', types, hps', rfl, htypes⟩ := plainSignature_eq_ok hs
  cases hps.symm.trans hps'
  obtain ⟨canonical, hcanonical, hhash⟩ := except_bind_eq_ok.1 hd
  obtain ⟨ps', canonicalTypes, hps', hct, rfl⟩ := canonicalSignature_eq_ok hcanonical
  cases hps.symm.trans hps'
  have htypes? := types?_read hread htypes
  have hcanonical? := canonicalTypesOf?_read (canonicalTypes?_read n) hread hct
  refine ⟨⟨⟨types, htypes?, rfl⟩, canonicalTypes, digest, hcanonical?, hhash, rfl⟩, fun ht hd' => ?_⟩
  cases hcanonical.symm.trans ht
  cases hd.symm.trans hd'
  rw [Identification.entry?, Parameters.canonicalTypes?, hcanonical?]

theorem field_of_requiredEntry {name : Text} {v : Value} (h : requiredEntry name entries = .ok v) :
    Value.field name entries = v := by
  unfold requiredEntry at h
  unfold Value.field
  split at h
  · rename_i w hw
    cases h
    rw [hw]
    rfl
  · cases h

/-! ## Items of a kind -/

/-- The identification of a function comes from its item. -/
theorem function_madeFrom {f : FunctionRecord} (h : readFunction (.object entries) entries = .ok f) :
    f.identification.MadeFrom shortHash (.object entries) := by
  obtain ⟨hn, ⟨inputs, hi, hinputs⟩, _, ⟨signature, hs, hsignature⟩, ⟨selector, hd, hselector⟩, _⟩ :=
    readFunction_eq_ok h
  rw [FunctionRecord.identification, ← field_of_requiredEntry hn, hinputs, hsignature, hselector]
  exact madeFrom_of_read hi hs hd

theorem event_madeFrom {e : EventRecord} (h : readEvent (.object entries) entries = .ok e) :
    e.identification.MadeFrom signatureHash (.object entries) := by
  obtain ⟨hn, ⟨inputs, hi, hinputs⟩, ⟨signature, hs, hsignature⟩, topic, hd, htopic⟩ := readEvent_eq_ok h
  rw [EventRecord.identification, ← field_of_requiredEntry hn, hinputs, hsignature, htopic]
  exact madeFrom_of_read hi hs hd

/-- A name that counts as nothing makes no difference to the identification. -/
theorem Identification.MadeFrom.orElse {hash : Text → Except Fault Text} {item : Value} {x : Identification}
    (h : x.MadeFrom hash item) : Identification.MadeFrom hash item { x with name := x.name.orElse "" } := by
  obtain ⟨⟨hsignature, hdigest⟩, hentry⟩ := h
  simp only [Identification.entry?] at hentry
  refine ⟨⟨?_, ?_⟩, ?_⟩
  · simpa only [signatureOf_orElse] using hsignature
  · simpa only [signatureOf_orElse] using hdigest
  · simpa only [Identification.entry?, signatureOf_orElse] using @hentry

theorem error_madeFrom {r : ErrorRecord} (h : readError (.object entries) entries = .ok r) :
    r.identification.MadeFrom shortHash (.object entries) := by
  obtain ⟨hn, ⟨inputs, hi, hinputs⟩, ⟨signature, hs, hsignature⟩, selector, hd, hselector⟩ := readError_eq_ok h
  rw [ErrorRecord.identification, hn, hinputs, hsignature, hselector]
  exact (madeFrom_of_read hi hs hd).orElse

/-- Whether the projection picks the records of the items of a kind. -/
def Picks {α : Type} (project : ItemRecord → Option α) (kind : ItemKind) : Prop :=
  ∀ {item index record}, readItem item index = .ok record → (ItemKind.of item = kind ↔ (project record).isSome = true)

theorem picks_functions : Picks ItemRecord.function? .function := by
  intro item index record h
  obtain ⟨_, rfl, ⟨f, hk, rfl, _⟩ | ⟨e, hk, rfl, _⟩ | ⟨r, hk, rfl, _⟩ | ⟨hk, rfl⟩⟩ := readItem_cases h
  all_goals simp_all [ItemRecord.function?]

theorem picks_events : Picks ItemRecord.event? .event := by
  intro item index record h
  obtain ⟨_, rfl, ⟨f, hk, rfl, _⟩ | ⟨e, hk, rfl, _⟩ | ⟨r, hk, rfl, _⟩ | ⟨hk, rfl⟩⟩ := readItem_cases h
  all_goals simp_all [ItemRecord.event?]

theorem picks_errors : Picks ItemRecord.error? .error := by
  intro item index record h
  obtain ⟨_, rfl, ⟨f, hk, rfl, _⟩ | ⟨e, hk, rfl, _⟩ | ⟨r, hk, rfl, _⟩ | ⟨hk, rfl⟩⟩ := readItem_cases h
  all_goals simp_all [ItemRecord.error?]

/-- The records of a kind were read from the items of the kind, one from each, in order. -/
theorem Picks.forall₂ {α : Type} {kind : ItemKind} {project : ItemRecord → Option α} (hp : Picks project kind)
    {R : Value → α → Prop}
    (hR : ∀ {item index record a}, readItem item index = .ok record → project record = some a → R item a)
    {items : List Value} {index : Nat} {records : List ItemRecord} (h : (readItems index items).result = .ok records) :
    List.Forall₂ R (items.filter (ItemKind.of · = kind)) (records.filterMap project) := by
  induction items generalizing index records with
  | nil =>
    cases h
    exact .nil
  | cons item items ih =>
    obtain ⟨record, rest, hr, hrest, rfl⟩ := readItems_cons_eq_ok.1 h
    cases ha : project record with
    | some a =>
      have hk : ItemKind.of item = kind := (hp hr).2 (by rw [ha]; rfl)
      rw [List.filter_cons, if_pos (decide_eq_true hk), List.filterMap_cons_some ha]
      exact .cons (hR hr ha) (ih hrest)
    | none =>
      have hk : ¬decide (ItemKind.of item = kind) = true := fun hk => by
        have hsome := (hp hr).1 (of_decide_eq_true hk)
        rw [ha] at hsome
        cases hsome
      rw [List.filter_cons, if_neg hk, List.filterMap_cons_none ha]
      exact ih hrest

section Kinds

variable {items : List Value} {records : List ItemRecord} (h : (readItems 0 items).result = .ok records)

include h

theorem functions_madeFrom : List.Forall₂ (fun item f => f.identification.MadeFrom shortHash item)
    (items.filter (ItemKind.of · = .function)) (records.filterMap ItemRecord.function?) := by
  refine picks_functions.forall₂ (fun {item index record f} hr ha => ?_) h
  obtain ⟨entries, rfl, hread⟩ := readItem_eq_ok hr
  cases function?_eq_some record f ha
  exact function_madeFrom hread.2

theorem events_madeFrom : List.Forall₂ (fun item e => e.identification.MadeFrom signatureHash item)
    (items.filter (ItemKind.of · = .event)) (records.filterMap ItemRecord.event?) := by
  refine picks_events.forall₂ (fun {item index record e} hr ha => ?_) h
  obtain ⟨entries, rfl, hread⟩ := readItem_eq_ok hr
  cases event?_eq_some record e ha
  exact event_madeFrom hread.2

theorem errors_madeFrom : List.Forall₂ (fun item r => r.identification.MadeFrom shortHash item)
    (items.filter (ItemKind.of · = .error)) (records.filterMap ItemRecord.error?) := by
  refine picks_errors.forall₂ (fun {item index record r} hr ha => ?_) h
  obtain ⟨entries, rfl, hread⟩ := readItem_eq_ok hr
  cases error?_eq_some record r ha
  exact error_madeFrom hread.2

end Kinds

/-- The table of hashes of some items is that of their records. -/
theorem table?_of_hashTable {hash : Text → Except Fault Text} {items : List Value} {xs : List Identification}
    {table : Table Text Text} (hx : List.Forall₂ (Identification.MadeFrom hash) items xs)
    (h : hashTable (fun item => canonicalSignature item >>= hash) items = .ok table) :
    Identification.table? xs = some table := by
  obtain ⟨entries, he, h⟩ := except_bind_eq_ok.1 h
  cases h
  have hentries : xs.mapM Identification.entry? = some entries := by
    refine mapM_eq_some_of_forall₂ (forall₂_of_left ?_ hx (except_mapM_eq_ok.1 he))
    intro item x e hmade hentry
    obtain ⟨t, ht, hentry⟩ := except_bind_eq_ok.1 hentry
    obtain ⟨digest, hd, hentry⟩ := except_bind_eq_ok.1 hentry
    cases hentry
    exact hmade.entry_eq ht hd
  rw [Identification.table?, hentries]
  rfl

theorem recomputes_of_madeFrom {α : Type} {hash : Text → Except Fault Text} {identification : α → Identification}
    {items : List Value} {as : List α}
    (h : List.Forall₂ (fun item a => (identification a).MadeFrom hash item) items as) :
    ∀ a ∈ as, (identification a).Recomputes hash := by
  intro a ha
  obtain ⟨_, _, hmade⟩ := exists_of_forall₂ h a ha
  exact hmade.recomputes

end Abi

open Abi

/-- The signature and the hash of every record are those that its own name and inputs give, and the selectors of a
document that was read are those of its records, in order. -/
theorem selectors_of_records {c : Conversion} {i : Interface}
    (h : (readInterface c.raw c.contractName).result = .ok i) : ∃ fs es rs,
      i = .ofRecords i.contractName fs es rs ∧
      (∀ f ∈ fs, f.identification.Recomputes shortHash) ∧ (∀ e ∈ es, e.identification.Recomputes signatureHash) ∧
      (∀ r ∈ rs, r.identification.Recomputes shortHash) ∧
      ∃ s, c.selectors.result = .ok s ∧
        Identification.table? (fs.map FunctionRecord.identification) = some s.functions ∧
        Identification.table? (es.map EventRecord.identification) = some s.events ∧
        Identification.table? (rs.map ErrorRecord.identification) = some s.errors := by
  obtain ⟨items, records, hl, hr, rfl⟩ := readInterface_eq_ok.1 h
  have hitems : c.items = .list items := by
    rw [Conversion.items, hl]
    rfl
  have hf := functions_madeFrom hr
  have he := events_madeFrom hr
  have hre := errors_madeFrom hr
  obtain ⟨s, hs⟩ := returns_selectors hr
  obtain ⟨hsf, hsr, hse⟩ := selectors_eq_ok.1 hs
  refine ⟨_, _, _, Interface.ofItems_eq _ _, recomputes_of_madeFrom hf, recomputes_of_madeFrom he,
    recomputes_of_madeFrom hre, s, ?_, ?_, ?_, ?_⟩
  · rw [Conversion.selectors, hitems]
    exact Outcome.ofFault_eq_ok.2 hs
  · exact table?_of_hashTable (List.forall₂_map_right_iff.2 hf) hsf
  · exact table?_of_hashTable (List.forall₂_map_right_iff.2 he) hse
  · exact table?_of_hashTable (List.forall₂_map_right_iff.2 hre) hsr

theorem selectors_of_records_shop : ∃ i, (readInterface shop .null).result = .ok i ∧ ∃ fs es rs,
      i = .ofRecords i.contractName fs es rs ∧
      (∀ f ∈ fs, f.identification.Recomputes shortHash) ∧ (∀ e ∈ es, e.identification.Recomputes signatureHash) ∧
      (∀ r ∈ rs, r.identification.Recomputes shortHash) ∧
      ∃ s, (Conversion.selectors ⟨shop, .null, .bool false, none, none, none⟩).result = .ok s ∧
        Identification.table? (fs.map FunctionRecord.identification) = some s.functions ∧
        Identification.table? (es.map EventRecord.identification) = some s.events ∧
        Identification.table? (rs.map ErrorRecord.identification) = some s.errors := by
  obtain ⟨_, _, _, hi, _⟩ := exists_read shop_wellFormed .null
  exact ⟨_, hi, selectors_of_records (c := ⟨shop, .null, .bool false, none, none, none⟩) hi⟩

end ContractApi
