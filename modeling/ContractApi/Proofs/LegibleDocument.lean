import ContractApi.Proofs.Fields
import ContractApi.Proofs.Surrogates
import ContractApi.Proofs.WrittenValue
import ContractApi.Text.Capital
/-!
# Descriptions are legible

If no text in a document holds the halves of a surrogate pair in a row, its description is legible: its names are
texts, no two names in one object are the same, and it does not lie deeper than JSON texts are read.

- Texts whose pairs are whole stay so when plain text is put around them and when their first letter is capitalized
  (`Unsplit.append_plain`, `Unsplit.capitalizeFirst`).
- Two levels of schema are made for each level of a type (`legible_ofTypeWithin`), so schemas of records have no more
  than `schemaLevels` and two (`legible_inputSchema` and the three after it), and documents `documentLevels`.
- Operations and schemas stand in tables, one under each name (`legible_table`, `legible_document`).
-/

namespace ContractApi

/-! ## Texts whose pairs are whole -/

namespace Text

theorem Unsplit.append {t u : Text} (ht : t.Unsplit) (hu : u.Unsplit)
    (h : (∀ c ∈ t.getLast?, c.isHighSurrogate = false) ∨ ∀ d ∈ u.head?, d.isLowSurrogate = false) :
    Unsplit (t ++ u) := by
  refine List.isChain_append.2 ⟨ht, hu, fun c hc d hd hpair => ?_⟩
  rcases h with h | h
  · rw [h c hc] at hpair
    cases hpair.1
  · rw [h d hd] at hpair
    cases hpair.2

theorem isHighSurrogate_of_plain {c : CodePoint} (h : c.isSurrogate = false) : c.isHighSurrogate = false := by
  simp only [CodePoint.isSurrogate, CodePoint.isHighSurrogate, Bool.and_eq_false_iff, decide_eq_false_iff_not] at h ⊢
  omega

theorem isLowSurrogate_of_plain {c : CodePoint} (h : c.isSurrogate = false) : c.isLowSurrogate = false := by
  simp only [CodePoint.isSurrogate, CodePoint.isLowSurrogate, Bool.and_eq_false_iff, decide_eq_false_iff_not] at h ⊢
  omega

theorem Plain.unsplit : ∀ {t : Text}, t.Plain → t.Unsplit
  | [], _ => List.IsChain.nil
  | c :: t, h => by
    obtain ⟨hc, ht⟩ := List.forall_mem_cons.1 h
    refine List.isChain_cons.2 ⟨fun d _ hpair => ?_, Plain.unsplit ht⟩
    rw [isHighSurrogate_of_plain hc] at hpair
    cases hpair.1

theorem unsplit_ofString (s : String) : (ofString s).Unsplit := (plain_ofString s).unsplit

theorem Unsplit.append_plain {t u : Text} (ht : t.Unsplit) (hu : u.Plain) : Unsplit (t ++ u) :=
  ht.append hu.unsplit (.inr fun d hd => isLowSurrogate_of_plain (hu d (List.mem_of_mem_head? hd)))

theorem Plain.append_unsplit {t u : Text} (ht : t.Plain) (hu : u.Unsplit) : Unsplit (t ++ u) :=
  ht.unsplit.append hu (.inl fun c hc => isHighSurrogate_of_plain (ht c (List.mem_of_getLast? hc)))

/-! ### Capital letters -/

/-- Whether the numbers from one to another are those of code points none of which is a surrogate. -/
def clear (low high : Int) : Bool := 0 ≤ low && high < 0x110000 && (high < 0xD800 || 0xDFFF < low)

theorem isSurrogate_of_clear {low high n : Int} (h : clear low high = true) (hl : low ≤ n) (hh : n ≤ high) :
    (CodePoint.ofNat n.toNat).isSurrogate = false := by
  simp only [clear, Bool.and_eq_true, Bool.or_eq_true, decide_eq_true_eq] at h
  rw [CodePoint.isSurrogate, Json.val_ofNat (by omega), ← Bool.decide_and, decide_eq_false_iff_not]
  omega

theorem clear_capitalSequences : capitalSequences.all (fun e => e.2.all fun n => clear n n) = true := by decide +kernel

theorem clear_capitalRuns : capitalRuns.all (fun r => clear (r.1 + r.2.2.2) (r.2.1 + r.2.2.2)) = true := by
  decide +kernel

/-- A code point is its own upper-case form, or that form holds no surrogate. -/
theorem plain_capitals (c : CodePoint) : c.capitals = [c] ∨ Plain c.capitals := by
  unfold CodePoint.capitals
  split
  · rename_i form h
    refine .inr fun d hd => ?_
    obtain ⟨n, hn, rfl⟩ := List.mem_map.1 hd
    obtain ⟨before, after, he, _⟩ := List.lookup_eq_some_iff.1 h
    have hmem : (c.val, form) ∈ capitalSequences := he ▸ List.mem_append_right _ List.mem_cons_self
    have hclear := List.all_eq_true.1 (List.all_eq_true.1 clear_capitalSequences _ hmem) n hn
    exact isSurrogate_of_clear hclear (Int.le_refl n) (Int.le_refl n)
  · split
    · rename_i first last step distance h
      refine .inr (List.forall_mem_singleton.2 ?_)
      have hclear := List.all_eq_true.1 clear_capitalRuns _ (List.mem_of_find?_eq_some h)
      have hrange := List.find?_some h
      simp only [Bool.and_eq_true, decide_eq_true_eq] at hrange hclear
      exact isSurrogate_of_clear hclear (by omega) (by omega)
    · exact .inl rfl

theorem Unsplit.capitalizeFirst {t : Text} (h : t.Unsplit) : t.capitalizeFirst.Unsplit := by
  cases t with
  | nil => exact h
  | cons c t =>
    rw [Text.capitalizeFirst]
    rcases plain_capitals c with hc | hc
    · rw [hc]
      exact h
    · exact hc.append_unsplit (List.IsChain.tail h)

end Text

/-! ## Values whose pairs are whole -/

namespace Value

mutual

/-- Whether no text in the value holds the halves of a surrogate pair in a row. -/
def Unsplit : Value → Prop
  | .text t => t.Unsplit
  | .list items => ItemsUnsplit items
  | .object entries => EntriesUnsplit entries
  | _ => True

def ItemsUnsplit : List Value → Prop
  | [] => True
  | v :: rest => v.Unsplit ∧ ItemsUnsplit rest

def EntriesUnsplit : List (Key × Value) → Prop
  | [] => True
  | (_, v) :: rest => v.Unsplit ∧ EntriesUnsplit rest

end

theorem itemsUnsplit_iff {items : List Value} : ItemsUnsplit items ↔ ∀ v ∈ items, v.Unsplit := by
  induction items with
  | nil => simp [ItemsUnsplit]
  | cons v rest ih => simp [ItemsUnsplit, ih]

theorem entriesUnsplit_iff {entries : List (Key × Value)} : EntriesUnsplit entries ↔ ∀ e ∈ entries, e.2.Unsplit := by
  induction entries with
  | nil => simp [EntriesUnsplit]
  | cons e rest ih => simp [EntriesUnsplit, ih]

theorem unsplit_field (name : Text) {entries : List (Key × Value)} (h : EntriesUnsplit entries) :
    (field name entries).Unsplit := by
  rw [field, lookup?]
  cases hl : Table.get? (.text name) entries with
  | none => trivial
  | some v => exact entriesUnsplit_iff.1 h _ (Table.mem_of_get? hl)

theorem Unsplit.orElse {v other : Value} (hv : v.Unsplit) (ho : other.Unsplit) : (v.orElse other).Unsplit := by
  unfold Value.orElse
  split
  · exact hv
  · exact ho

/-- What a value displays is a text of the value or plain. -/
theorem unsplit_display {v : Value} (h : v.Unsplit) : v.display.Unsplit := by
  cases v with
  | text t => exact h
  | _ => exact (plain_quoted _).unsplit

end Value

namespace Abi

/-! ## Records -/

mutual

/-- Whether the names and types of the parameter and of all below it hold no halves of a surrogate pair in a row. -/
def Parameter.Unsplit : Parameter → Prop
  | .record name type _ _ components => name.Unsplit ∧ type.Unsplit ∧ components.Unsplit
  | .stray _ => True

def Parameters.Unsplit : Parameters → Prop
  | .list parameters => Parameters.AllUnsplit parameters
  | _ => True

def Parameters.AllUnsplit : List Parameter → Prop
  | [] => True
  | p :: rest => p.Unsplit ∧ Parameters.AllUnsplit rest

end

theorem Parameters.allUnsplit_iff {ps : List Parameter} : Parameters.AllUnsplit ps ↔ ∀ p ∈ ps, p.Unsplit := by
  induction ps with
  | nil => simp [Parameters.AllUnsplit]
  | cons p ps ih => simp [Parameters.AllUnsplit, ih]

/-- Whether what a document says of the function holds no halves of a surrogate pair in a row. -/
structure FunctionRecord.Unsplit (f : FunctionRecord) : Prop where
  name : f.name.Unsplit
  stateMutability : f.stateMutability.Unsplit
  inputs : f.inputs.Unsplit
  outputs : f.outputs.Unsplit

/-- Whether what a document says of the event holds no halves of a surrogate pair in a row. -/
structure EventRecord.Unsplit (e : EventRecord) : Prop where
  name : e.name.Unsplit
  inputs : e.inputs.Unsplit

/-- Whether what a document says of the error holds no halves of a surrogate pair in a row. -/
structure ErrorRecord.Unsplit (r : ErrorRecord) : Prop where
  name : r.name.Unsplit
  inputs : r.inputs.Unsplit

end Abi

namespace Schema

open Abi OpenApi

/-! ## Schemas -/

/-- An entry with a fixed name is legible if its value is. -/
theorem legible_entry (name : String) {v : Value} {levels : Nat} (h : v.Legible levels) :
    (∃ t : Text, ((name, v) : Key × Value).1 = .text t ∧ t.Unsplit) ∧ ((name, v) : Key × Value).2.Legible levels :=
  ⟨⟨_, rfl, Text.unsplit_ofString name⟩, h⟩

theorem legible_cons (name : String) {v : Value} {rest : List (Key × Value)} {levels : Nat} (h : v.Legible levels)
    (hrest : ∀ e ∈ rest, (∃ t : Text, e.1 = .text t ∧ t.Unsplit) ∧ e.2.Legible levels) :
    ∀ e ∈ ((name, v) : Key × Value) :: rest, (∃ t : Text, e.1 = .text t ∧ t.Unsplit) ∧ e.2.Legible levels :=
  List.forall_mem_cons.2 ⟨legible_entry name h, hrest⟩

theorem legible_last (name : String) {v : Value} {levels : Nat} (h : v.Legible levels) :
    ∀ e ∈ [((name, v) : Key × Value)], (∃ t : Text, e.1 = .text t ∧ t.Unsplit) ∧ e.2.Legible levels :=
  List.forall_mem_singleton.2 (legible_entry name h)

theorem legible_unknown {type : Value} (h : type.Unsplit) : (unknown type).toValue.Legible 1 := by
  rw [toValue]
  have ht := (Text.plain_ofString "Solidity type: ").append_unsplit (Value.unsplit_display h)
  refine Value.legible_object.2 ⟨of_decide_eq_true rfl, ?_⟩
  simp [Value.Legible, Text.unsplit_ofString, ht]

theorem legible_ofElementary {type : Text} (h : type.Unsplit) : (ofElementary type).toValue.Legible 1 := by
  have ht (s : String) : Text.Unsplit (type ++ Text.ofString s) := h.append_plain (Text.plain_ofString s)
  unfold ofElementary
  split_ifs
  case neg => exact legible_unknown h
  all_goals
    rw [toValue]
    refine Value.legible_object.2 ⟨of_decide_eq_true rfl, ?_⟩
    simp [Value.Legible, Text.unsplit_ofString, ht]

/-- A schema is legible under another description, too. -/
theorem legible_described {s : Schema} {levels : Nat} (h : s.toValue.Legible (levels + 1)) {description : Text}
    (hd : description.Unsplit) : (described s description).toValue.Legible (levels + 1) := by
  obtain ⟨entries, he⟩ := s.toValue_eq_object
  rw [he] at h
  obtain ⟨hn, hentries⟩ := Value.legible_object.1 h
  rw [toValue, he, withEntry, Value.legible_object]
  refine ⟨Table.nodup_keys_insert _ _ hn, fun e hmem => ?_⟩
  rcases Table.mem_insert hmem with rfl | hmem
  · exact legible_entry "description" hd
  · exact hentries e hmem

/-- An object is legible if its fields are, and no two of them have the same name. -/
theorem legible_fields {fields : List (Key × Schema)} {levels : Nat} (hn : (fields.map Prod.fst).Nodup)
    (hf : ∀ f ∈ fields, (∃ t : Text, f.1 = .text t ∧ t.Unsplit) ∧ f.2.toValue.Legible levels) (required : Bool)
    {description : Option Text} (hd : ∀ t ∈ description, t.Unsplit) :
    (object fields required description).toValue.Legible (levels + 2) := by
  have hproperties : (Value.object (fieldValues fields)).Legible (levels + 1) := by
    rw [OpenApi.fieldValues_eq, Value.legible_object, List.map_map]
    exact ⟨hn, List.forall_mem_map.2 hf⟩
  have hnames : (Value.list (fields.map fun f => f.1.toValue)).Legible (levels + 1) := by
    refine Value.legible_list.2 (List.forall_mem_map.2 fun f hmem => ?_)
    obtain ⟨⟨t, ht, hu⟩, _⟩ := hf f hmem
    rw [ht]
    exact hu
  rw [toValue, Value.legible_object]
  refine ⟨by cases required <;> cases description <;> exact of_decide_eq_true rfl, ?_⟩
  refine legible_cons "type" (Text.unsplit_ofString _) (legible_cons "properties" hproperties
    (List.forall_mem_append.2 ⟨fun e hmem => ?_, fun e hmem => ?_⟩))
  · cases required with
    | false => cases hmem
    | true =>
      cases List.mem_singleton.1 hmem
      exact legible_entry "required" hnames
  · cases description with
    | none => cases hmem
    | some t =>
      cases List.mem_singleton.1 hmem
      exact legible_entry "description" (hd t rfl)

theorem legible_rowFields {rows : List Row} {levels : Nat} (hn : (rows.map Row.name).Nodup)
    (h : ∀ r ∈ rows, r.name.Unsplit ∧ r.schema.toValue.Legible levels) (required : Bool) {description : Option Text}
    (hd : ∀ t ∈ description, t.Unsplit) :
    (object (rows.map Row.field) required description).toValue.Legible (levels + 2) := by
  refine legible_fields ?_ (List.forall_mem_map.2 fun r hr => ⟨⟨r.name, rfl, (h r hr).1⟩, (h r hr).2⟩) required hd
  have hkeys : (rows.map Row.field).map Prod.fst = (rows.map Row.name).map Key.text := by
    rw [List.map_map, List.map_map]
    rfl
  rw [hkeys]
  exact hn.map fun t u htu => Key.text.inj htu

/-- The names that parameters get have whole pairs if their own names have. -/
theorem unsplit_rowNames {default : Text} (hd : default.Plain) {rows : List Row}
    (hp : ∀ r ∈ rows, r.parameter.WellFormed ∧ r.parameter.Unsplit)
    (h : uniqueNames default ((rows.map Row.parameter).map .read) = .ok (rows.map fun r => .text r.name)) :
    ∀ r ∈ rows, r.name.Unsplit := by
  have hsuffix (t : Text) (index : Nat) (ht : t.Unsplit) : Text.Unsplit (t ++ "_" ++ Text.ofNat index) :=
    (ht.append_plain (Text.plain_ofString "_")).append_plain (Text.plain_ofNat index)
  have hdefault (index : Nat) : Text.Unsplit (default ++ Text.ofNat index) :=
    (hd.append (Text.plain_ofNat index)).unsplit
  have hnamed : ∀ m ∈ (rows.map Row.parameter).map Member.read, ∃ t, m.name = .text t ∧ t.Unsplit := by
    refine List.forall_mem_map.2 (List.forall_mem_map.2 fun r hr => ?_)
    obtain ⟨hwf, hu⟩ := hp r hr
    obtain ⟨name, _, _, _, _, heq, ⟨t, ht⟩, _⟩ := hwf.exists_record
    rw [heq] at hu ⊢
    subst ht
    exact ⟨t, rfl, hu.1⟩
  obtain ⟨names, hnames, _, _, hunsplit⟩ := forall_uniqueNames hsuffix hdefault hnamed
  have hkeys := Except.ok.inj (h.symm.trans hnames)
  intro r hr
  have hmem : Key.text r.name ∈ names.map Key.text := hkeys ▸ List.mem_map_of_mem hr
  obtain ⟨t, ht, heq⟩ := List.mem_map.1 hmem
  cases heq
  exact hunsplit _ ht

theorem IsArrayOf.unsplit {type base : Text} (h : IsArrayOf type base) (ht : type.Unsplit) : base.Unsplit := by
  obtain ⟨digits, ending, _, _, _, rfl⟩ := h
  rw [List.append_assoc, List.append_assoc, List.append_assoc] at ht
  exact List.IsChain.left_of_append ht

/-- The schema of a type has at most two levels for each level of the type, and one more. -/
theorem legible_ofTypeWithin : ∀ (levels : Nat) (type : Value) {members : Parameters} {s : Schema}, type.Unsplit →
    members.WellFormed → members.Unsplit → (ofTypeWithin levels type (.read members)).result = .ok s →
      s.toValue.Legible (2 * levels + 1)
  | 0, type, _, s, ht, _, _, h => by
    have hs : s = .unknown type := by cases type <;> exact (Except.ok.inj h).symm
    subst hs
    exact legible_unknown ht
  | levels + 1, .text type, members, s, ht, hm, hu, h => by
    by_cases htuple : type = "tuple"
    · subst htuple
      by_cases hp : (Members.read members).isPresent = true
      · cases members with
        | absent => cases hp
        | stray v => exact hm.elim
        | list ps =>
          have hps := Parameters.allWellFormed_iff.1 hm
          have hus := Parameters.allUnsplit_iff.1 hu
          obtain ⟨rows, rfl, hn, hnames, hschemas, rfl⟩ := exists_tuple_rows hps hp h
          have hrows : ∀ r ∈ rows, r.parameter.WellFormed ∧ r.parameter.Unsplit := fun r hr =>
            ⟨hps _ (List.mem_map_of_mem hr), hus _ (List.mem_map_of_mem hr)⟩
          have hunsplit := unsplit_rowNames (Text.plain_ofString "item") hrows hnames
          refine legible_rowFields hn (fun r hr => ⟨hunsplit r hr, ?_⟩) true fun _ hd => nomatch hd
          obtain ⟨hwf, hup⟩ := hrows r hr
          have hschema := hschemas r hr
          obtain ⟨_, _, _, _, components, heq, _, hc⟩ := hwf.exists_record
          rw [heq] at hup hschema
          exact legible_ofTypeWithin levels _ hup.2.1 hc hup.2.2 hschema
      · rw [ofTypeWithin, if_pos rfl, if_neg hp] at h
        cases h
        exact (legible_unknown ht).mono (by omega)
    · rw [ofTypeWithin, if_neg htuple] at h
      split at h
      · rename_i base hi
        obtain ⟨items, hitems, h⟩ := Outcome.bind_eq_ok.1 h
        cases h
        have hbase := (isArrayOf_of_itemType? hi).unsplit ht
        have ih := legible_ofTypeWithin levels (.text base) hbase hm hu hitems
        rw [toValue, show 2 * (levels + 1) + 1 = (2 * levels + 2) + 1 from rfl, Value.legible_object]
        exact ⟨of_decide_eq_true rfl,
          legible_cons "type" (Text.unsplit_ofString _) (legible_last "items" (ih.mono (by omega)))⟩
      · cases h
        exact (legible_ofElementary ht).mono (by omega)
  | levels + 1, .null, _, s, ht, _, _, h | levels + 1, .bool _, _, s, ht, _, _, h
  | levels + 1, .int _, _, s, ht, _, _, h | levels + 1, .float _, _, s, ht, _, _, h
  | levels + 1, .list _, _, s, ht, _, _, h | levels + 1, .object _, _, s, ht, _, _, h => by
    cases h
    exact (legible_unknown ht).mono (by omega)

end Schema

namespace OpenApi

open Abi Schema

/-! ## Schemas of records -/

/-- How many levels the schema of a parameter may have. -/
def schemaLevels : Nat := 2 * (maxDepth + 1) + 1

theorem legible_parameterSchema {p : Parameter} {s : Schema} (hp : p.WellFormed) (hu : p.Unsplit)
    (h : (parameterSchema p).result = .ok s) : s.toValue.Legible schemaLevels := by
  obtain ⟨_, _, _, _, components, rfl, _, hc⟩ := hp.exists_record
  exact legible_ofTypeWithin (maxDepth + 1) _ hu.2.1 hc hu.2.2 h

section Rows

variable {default : Text} (hd : default.Plain) {parameters : Parameters} (hl : parameters.IsList)
  (hu : parameters.Unsplit)

include hd hl hu

/-- Parameters have rows whose names and schemas are legible. -/
theorem exists_legible : ∃ rows : List Row, parameters = .list (rows.map Row.parameter) ∧
    uniqueNames default ((rows.map Row.parameter).map .read) = .ok (rows.map fun r => .text r.name) ∧
      (rows.map Row.name).Nodup ∧ ∀ r ∈ rows, (r.parameter.WellFormed ∧ r.parameter.Unsplit ∧
        (parameterSchema r.parameter).result = .ok r.schema) ∧
          r.name.Unsplit ∧ r.schema.toValue.Legible schemaLevels := by
  obtain ⟨rows, hrows, hn, hnames, hschemas⟩ := exists_named default hl
  subst hrows
  have hus := Parameters.allUnsplit_iff.1 hu
  have hrows : ∀ r ∈ rows, r.parameter.WellFormed ∧ r.parameter.Unsplit := fun r hr =>
    ⟨(hschemas r hr).1, hus _ (List.mem_map_of_mem hr)⟩
  have hunsplit := unsplit_rowNames hd hrows hnames
  refine ⟨rows, rfl, hnames, hn, fun r hr => ?_⟩
  obtain ⟨hwf, hup⟩ := hrows r hr
  have hschema := (hschemas r hr).2
  exact ⟨⟨hwf, hup, hschema⟩, hunsplit r hr, legible_parameterSchema hwf hup hschema⟩

theorem legible_parameterFields {fields : List (Key × Schema)}
    (h : (parameterFields default parameters).result = .ok fields) (required : Bool) {description : Option Text}
    (hdescription : ∀ t ∈ description, t.Unsplit) :
    (Schema.object fields required description).toValue.Legible (schemaLevels + 2) := by
  obtain ⟨rows, rfl, hnames, hn, hrows⟩ := exists_legible hd hl hu
  cases h.symm.trans (parameterFields_rows hnames fun r hr => (hrows r hr).1.2.2)
  exact legible_rowFields hn (fun r hr => (hrows r hr).2) required hdescription

end Rows

theorem legible_inputSchema {f : FunctionRecord} {s : Schema} (hl : f.inputs.IsList) (hu : f.inputs.Unsplit)
    (h : (inputSchema (.record f)).result = .ok s) : s.toValue.Legible (schemaLevels + 2) := by
  obtain ⟨fields, hfields, h⟩ := Outcome.bind_eq_ok.1 h
  cases h
  exact legible_parameterFields (Text.plain_ofString "param") hl hu hfields true fun _ hd => nomatch hd

/-- The only parameter of a list is the one that is found to be so. -/
theorem eq_of_onlyUnnamed? {parameters : Parameters} {p : Parameter} (hl : parameters.IsList)
    (h : onlyUnnamed? parameters = .ok (some p)) : parameters = .list [p] := by
  obtain ⟨ps, rfl, hwf⟩ := hl
  match ps, hwf, h with
  | [], _, h => cases h
  | [q], hwf, h =>
    rw [onlyUnnamed?, unnamed?_eq (hwf q List.mem_cons_self)] at h
    split at h
    · cases h
    · cases h
      rfl
  | _ :: _ :: _, _, h => cases h

theorem legible_outputSchema {f : FunctionRecord} {s : Schema} (hl : f.outputs.IsList) (hu : f.outputs.Unsplit)
    (h : (outputSchema (.record f)).result = .ok s) : s.toValue.Legible (schemaLevels + 2) := by
  obtain ⟨only, honly, h⟩ := Outcome.bind_eq_ok.1 h
  cases only with
  | some p =>
    have hp := eq_of_onlyUnnamed? hl (Outcome.ofFault_eq_ok.1 honly)
    obtain ⟨ps, hps, hwf⟩ := hl
    cases hps.symm.trans hp
    rw [hp] at hu
    have hlegible := legible_parameterSchema (hwf p List.mem_cons_self) hu.1 h
    exact hlegible.mono (Nat.le_add_right _ 2)
  | none =>
    obtain ⟨fields, hfields, h⟩ := Outcome.bind_eq_ok.1 h
    cases h
    exact legible_parameterFields (Text.plain_ofString "return") hl hu hfields false fun _ hd => nomatch hd

theorem legible_eventSchema {e : EventRecord} {s : Schema} (hl : e.inputs.IsList) (hu : e.inputs.Unsplit)
    (hname : e.name.Unsplit) (h : (eventSchema (.record e)).result = .ok s) :
    s.toValue.Legible (schemaLevels + 2) := by
  obtain ⟨rows, hinputs, hnames, hn, hrows⟩ := exists_legible (Text.plain_ofString "param") hl hu
  cases h.symm.trans (eventSchema_rows hinputs hnames fun r hr => (hrows r hr).1.2.2)
  have hdescription : Text.Unsplit ("Event: " ++ e.name.display) :=
    (Text.plain_ofString "Event: ").append_unsplit (Value.unsplit_display hname)
  refine legible_rowFields ?_ (List.forall_mem_map (f := Row.noted).2 fun r hr => ⟨(hrows r hr).2.1, ?_⟩) false
    fun t ht => Option.some.inj ht ▸ hdescription
  · rw [List.map_map]
    exact hn
  · refine legible_described (hrows r hr).2.2 ?_
    unfold eventNote
    split <;> exact Text.unsplit_ofString _

theorem legible_errorSchema {r : ErrorRecord} {s : Schema} (hl : r.inputs.IsList) (hu : r.inputs.Unsplit)
    (hname : r.name.Unsplit) (h : (errorSchema (.record r)).result = .ok s) :
    s.toValue.Legible (schemaLevels + 2) := by
  obtain ⟨fields, hfields, h⟩ := Outcome.bind_eq_ok.1 h
  cases h
  have hdescription : Text.Unsplit ("Error: " ++ r.name.display) :=
    (Text.plain_ofString "Error: ").append_unsplit (Value.unsplit_display hname)
  exact legible_parameterFields (Text.plain_ofString "param") hl hu hfields false
    fun t ht => Option.some.inj ht ▸ hdescription

/-! ## Operations -/

theorem legible_jsonContent {schema : Text} (h : schema.Unsplit) : (jsonContent schema).Legible 3 := by
  have href : Text.Unsplit ("#/components/schemas/" ++ schema) :=
    (Text.plain_ofString "#/components/schemas/").append_unsplit h
  refine Value.legible_object.2 ⟨List.nodup_singleton _, legible_last _ ?_⟩
  refine Value.legible_object.2 ⟨List.nodup_singleton _, legible_last _ ?_⟩
  exact Value.legible_object.2 ⟨List.nodup_singleton _, legible_last _ href⟩

theorem legible_responses {response : Option Text} (h : ∀ schema ∈ response, schema.Unsplit) :
    (responses response).Legible 5 := by
  have hplain (description : String) : (plainResponse description).Legible 4 :=
    Value.legible_object.2 ⟨List.nodup_singleton _, legible_last _ (Text.unsplit_ofString description)⟩
  have hsuccess : (successResponse response).Legible 4 := by
    cases response with
    | none => exact hplain _
    | some schema =>
      have hcontent := legible_jsonContent (h schema rfl)
      exact Value.legible_object.2
        ⟨of_decide_eq_true rfl, legible_cons _ (Text.unsplit_ofString _) (legible_last _ hcontent)⟩
  exact Value.legible_object.2
    ⟨of_decide_eq_true rfl, legible_cons _ hsuccess (legible_cons _ (hplain _) (legible_last _ (hplain _)))⟩

theorem query_requestOf {f : FunctionRecord} {parameters : List QueryParameter}
    (h : (requestOf f).result = .ok (.query parameters)) : (queryParameters f.inputs).result = .ok parameters := by
  unfold requestOf at h
  split at h
  · split at h
    · split at h
      · obtain ⟨qs, hqs, heq⟩ := Outcome.map_eq_ok.1 h
        cases heq
        exact hqs
      · cases h
    · cases h
  · cases h

theorem legible_queryParameters {inputs : Parameters} (hl : inputs.IsList) (hu : inputs.Unsplit)
    {parameters : List QueryParameter} (h : (queryParameters inputs).result = .ok parameters) :
    ∀ q ∈ parameters, q.toValue.Legible (schemaLevels + 1) := by
  obtain ⟨rows, rfl, hnames, _, hrows⟩ := exists_legible (Text.plain_ofString "param") hl hu
  cases h.symm.trans (queryParameters_rows hnames fun r hr => ⟨(hrows r hr).1.1, (hrows r hr).1.2.2⟩)
  refine List.forall_mem_map.2 fun r hr => ?_
  obtain ⟨⟨hwf, hunsplit, _⟩, hname, hschema⟩ := hrows r hr
  have htype : (Member.read r.parameter).type.Unsplit := by
    obtain ⟨_, _, _, _, _, heq, _, _⟩ := hwf.exists_record
    rw [heq] at hunsplit ⊢
    exact hunsplit.2.1
  have hdescription : Text.Unsplit ("Function parameter: " ++ (Member.read r.parameter).type.display) :=
    (Text.plain_ofString "Function parameter: ").append_unsplit (Value.unsplit_display htype)
  refine Value.legible_object.2 ⟨of_decide_eq_true rfl, ?_⟩
  exact legible_cons _ hname (legible_cons _ (Text.unsplit_ofString _) (legible_cons _ hdescription
    (legible_cons _ trivial (legible_last _ hschema))))

theorem legible_request {f : FunctionRecord} {r : Request} (hl : f.inputs.IsList) (hu : f.Unsplit)
    (h : (requestOf f).result = .ok r) :
    ∀ e ∈ r.entries, (∃ t : Text, e.1 = .text t ∧ t.Unsplit) ∧ e.2.Legible (schemaLevels + 2) := by
  cases r with
  | empty => exact fun _ h => absurd h List.not_mem_nil
  | query parameters =>
    have hparameters := legible_queryParameters hl hu.inputs (query_requestOf h)
    exact legible_last _ (Value.legible_list.2 (List.forall_mem_map.2 hparameters))
  | body schema =>
    obtain ⟨_, heq⟩ | ⟨_, _, _, heq⟩ | ⟨_, _, heq⟩ := requestOf_cases h
    · cases heq
    · cases heq
    · cases heq
      have hschema : (requestName f.name).Unsplit :=
        (Value.unsplit_display hu.name).append_plain (Text.plain_ofString "Request")
      have hcontent := (legible_jsonContent hschema).mono (by decide : 3 ≤ schemaLevels + 1)
      exact legible_last _
        (Value.legible_object.2 ⟨of_decide_eq_true rfl, legible_cons _ hcontent (legible_last _ trivial)⟩)

/-- What an operation says of its function holds no halves of a surrogate pair in a row. -/
theorem unsplit_operation {f : FunctionRecord} {o : Operation} (hu : f.Unsplit)
    (h : (Operation.ofFunction (.record f)).result = .ok o) :
    o.summary.Unsplit ∧ o.description.Unsplit ∧ o.operationId.Unsplit := by
  obtain ⟨⟨name, hn⟩, hid⟩ := operationId_ofFunction h
  obtain ⟨capital, _, h⟩ := Outcome.bind_eq_ok.1 h
  obtain ⟨request, _, h⟩ := Outcome.bind_eq_ok.1 h
  cases h
  have hs := Text.plain_ofString
  have hname := Value.unsplit_display hu.name
  refine ⟨((hs _).append_unsplit hname).append_plain (hs _), ?_, ?_⟩
  · have hcalls : Text.Unsplit ("Calls the '" ++ f.name.display ++ "' function on the smart contract") :=
      ((hs _).append_unsplit hname).append_plain (hs _)
    split
    · have hmutability := Value.unsplit_display hu.stateMutability
      refine hcalls.append (((hs " (").append_unsplit hmutability).append_plain (hs ")")) (.inr fun c hc => ?_)
      cases hc
      rfl
    · exact hcalls.append_plain Text.plain_nil
  · have hcapital := hu.name
    rw [hn] at hid hcapital
    rw [hid]
    exact (hs _).append_unsplit (Text.Unsplit.capitalizeFirst hcapital)

theorem legible_operation {f : FunctionRecord} {o : Operation} (hl : f.inputs.IsList) (hu : f.Unsplit)
    (h : (Operation.ofFunction (.record f)).result = .ok o) : o.toValue.Legible (schemaLevels + 3) := by
  obtain ⟨hrequest, hresponse⟩ := ofFunction_eq_ok h
  obtain ⟨hsummary, hdescription, hid⟩ := unsplit_operation hu h
  have hschema : ∀ schema ∈ o.response, schema.Unsplit := by
    intro schema hmem
    obtain ⟨_, rfl⟩ := (response_ofFunction h schema).1 hmem
    exact (Value.unsplit_display hu.name).append_plain (Text.plain_ofString "Response")
  have hresponses := (legible_responses hschema).mono (by decide : 5 ≤ schemaLevels + 2)
  have htags : (Value.list ["Contract Functions"]).Legible (schemaLevels + 2) :=
    Value.legible_list.2 (List.forall_mem_singleton.2 (Text.unsplit_ofString _))
  refine Value.legible_object.2 ⟨?_, List.forall_mem_append.2 ⟨?_, legible_request hl hu hrequest⟩⟩
  · cases o.request <;> exact of_decide_eq_true rfl
  · exact legible_cons _ hsummary (legible_cons _ hdescription (legible_cons _ hid (legible_cons _ htags
      (legible_last _ hresponses))))

/-! ## Documents -/

/-- How many levels a document may have. -/
def documentLevels : Nat := schemaLevels + 6

/-- The entries of a table whose names are texts and whose values are legible. -/
theorem legible_table {α : Type} {t : Table Text α} {levels : Nat} {f : α → Value} (hn : (Table.keys t).Nodup)
    (h : ∀ e ∈ t, e.1.Unsplit ∧ (f e.2).Legible levels) :
    (Value.object (t.map fun e => (.text e.1, f e.2))).Legible (levels + 1) := by
  refine Value.legible_object.2 ⟨?_, List.forall_mem_map.2 fun e he => ⟨⟨e.1, rfl, (h e he).1⟩, (h e he).2⟩⟩
  have hkeys : (t.map fun e => (Key.text e.1, f e.2)).map Prod.fst = (Table.keys t).map Key.text := by
    rw [Table.keys, List.map_map, List.map_map]
    rfl
  rw [hkeys]
  exact hn.map fun t u htu => Key.text.inj htu

theorem plain_methodKey {f : FunctionRecord} (h : f.httpMethod = .text "GET" ∨ f.httpMethod = .text "POST") :
    (methodKey f).Plain := by
  have hget : Text.lower "GET" = Text.ofString "get" := by decide +kernel
  have hpost : Text.lower "POST" = Text.ofString "post" := by decide +kernel
  rcases h with h | h
  · simp only [methodKey, h, hget, Text.plain_ofString]
  · simp only [methodKey, h, hpost, Text.plain_ofString]

namespace Parts

variable {fs : List FunctionRecord} {es : List EventRecord} {rs : List ErrorRecord} (parts : Parts fs es rs)
  (hf : ∀ f ∈ fs, (f.httpMethod = .text "GET" ∨ f.httpMethod = .text "POST") ∧ f.inputs.IsList ∧ f.outputs.IsList ∧
    f.Unsplit)
  (he : ∀ e ∈ es, e.inputs.IsList ∧ e.Unsplit) (hr : ∀ r ∈ rs, r.inputs.IsList ∧ r.Unsplit)

include hf he hr

theorem legible_schemas {m : SchemaKind × Text} {s : Schema} (h : (m, s) ∈ parts.schemas) :
    (schemaKey m).Unsplit ∧ s.toValue.Legible (schemaLevels + 2) := by
  have hkey (k : SchemaKind) {v : Value} (hv : v.Unsplit) : (schemaKey (k, v.display)).Unsplit := by
    have hending : k.ending.Plain := by cases k <;> exact Text.plain_ofString _
    exact (Value.unsplit_display hv).append_plain hending
  obtain ⟨f, hmem, rfl, hmade⟩ | ⟨f, hmem, rfl, hmade⟩ | ⟨e, hmem, rfl, hmade⟩ | ⟨r, hmem, rfl, hmade⟩ :=
    parts.schemas_cases h
  · obtain ⟨_, hl, _, hu⟩ := hf f hmem
    exact ⟨hkey .request hu.name, legible_inputSchema hl hu.inputs hmade⟩
  · obtain ⟨_, _, hl, hu⟩ := hf f hmem
    exact ⟨hkey .response hu.name, legible_outputSchema hl hu.outputs hmade⟩
  · obtain ⟨hl, hu⟩ := he e hmem
    exact ⟨hkey .event hu.name, legible_eventSchema hl hu.inputs hu.name hmade⟩
  · obtain ⟨hl, hu⟩ := hr r hmem
    exact ⟨hkey .error hu.name, legible_errorSchema hl hu.inputs hu.name hmade⟩

omit he hr in
/-- The operations under a path are legible. -/
theorem legible_paths (contractName : Value) {path : Text} {operations : Table Text Operation}
    (h : (path, operations) ∈ (parts.document contractName).paths) : path.Unsplit ∧
      (Value.object (operations.map fun e => (.text e.1, e.2.toValue))).Legible (schemaLevels + 4) := by
  have hkey : path ∈ parts.operations.map (·.1) := by
    rw [← Table.mem_firsts, ← Table.keys_ofNested]
    exact List.mem_map_of_mem (f := Prod.fst) h
  refine ⟨?_, legible_table ?_ fun e he => ?_⟩
  · obtain ⟨_, hop, rfl⟩ := List.mem_map.1 hkey
    obtain ⟨f, hmem, rfl⟩ := List.mem_map.1 hop
    exact (Text.plain_ofString "/contract/").append_unsplit (Value.unsplit_display (hf f hmem).2.2.2.name)
  · have hget := Table.get?_of_mem (Table.nodup_keys_ofNested _) h
    cases hget.symm.trans (Table.get?_ofNested hkey)
    exact Table.nodup_keys_ofList _
  · obtain ⟨f, hlast, ho⟩ := parts.mem_paths h he
    obtain ⟨hmem, _, hmethod⟩ := lastFunction?_some hlast
    obtain ⟨hm, hl, _, hu⟩ := hf f hmem
    rw [ho, ← hmethod]
    exact ⟨(plain_methodKey hm).unsplit, legible_operation hl hu (parts.operation_eq f hmem)⟩

/-- A document is legible. -/
theorem legible_document {contractName : Value} (hname : contractName.Unsplit) :
    (parts.document contractName).toValue.Legible documentLevels := by
  have hs := Text.plain_ofString
  have hdisplay := Value.unsplit_display hname
  have hinfo : (Value.object [("title", .text (contractName.display ++ " API")),
      ("description", .text ("API for interacting with the " ++ contractName.display ++ " smart contract")),
      ("version", "1.0.0")]).Legible (schemaLevels + 5) := by
    refine Value.legible_object.2 ⟨of_decide_eq_true rfl,
      legible_cons _ ?_ (legible_cons _ ?_ (legible_last _ (Text.unsplit_ofString _)))⟩
    · exact hdisplay.append_plain (hs " API")
    · exact ((hs "API for interacting with the ").append_unsplit hdisplay).append_plain (hs " smart contract")
  have hpaths : (Value.object ((parts.document contractName).paths.map fun e =>
      (.text e.1, .object (e.2.map fun e => (.text e.1, e.2.toValue))))).Legible (schemaLevels + 5) :=
    legible_table (f := fun operations : Table Text Operation =>
      .object (operations.map fun e => (.text e.1, e.2.toValue))) (Table.nodup_keys_ofNested _)
        fun _ h => parts.legible_paths hf contractName h
  have hschemas : (Value.object ((parts.document contractName).schemas.map fun e =>
      (.text e.1, e.2.toValue))).Legible (schemaLevels + 3) := by
    refine legible_table (Table.nodup_keys_ofList _) fun e h => ?_
    have hget : Table.get? e.1 (parts.document contractName).schemas = some e.2 :=
      Table.get?_of_mem (Table.nodup_keys_ofList _) h
    obtain ⟨m, hm, hmem⟩ := parts.mem_schemas_of_get? hget
    rw [← hm]
    exact parts.legible_schemas hf he hr hmem
  have hcomponents : (Value.object [("schemas", .object ((parts.document contractName).schemas.map fun e =>
      (.text e.1, e.2.toValue)))]).Legible (schemaLevels + 4) :=
    Value.legible_object.2 ⟨List.nodup_singleton _, legible_last _ hschemas⟩
  refine Value.legible_object.2 ⟨of_decide_eq_true rfl, ?_⟩
  exact legible_cons _ (Text.unsplit_ofString _) (legible_cons _ hinfo (legible_cons _ hpaths
    (legible_last _ (hcomponents.mono (Nat.le_succ _)))))

end Parts

end OpenApi

end ContractApi
