import ContractApi.Proofs.Gate
import ContractApi.Schema.OfType
/-!
# Records are described like documents

A parameter has the same schema whether it stands in a document or was read into a record. Reading fills in names, and
puts an empty list in the place of members that count as nothing, but a description does not see the difference.

- Members that were read are those of a list, one record for each, or count as nothing (`readMembers_eq_ok`).
- They get the same names (`uniqueNames_read`), and a type has the same schema with them (`ofTypeWithin_read`), however
  deep either of the two goes.
- So parameters that were read are described as they are in the document (`described_like_document`).
-/

namespace ContractApi

namespace Abi

/-! ## What was read -/

/-- Parameters that were read are those of a list, in order, or there are none. -/
theorem readParametersWithin_eq_ok {levels : Nat} {v : Value} {qs : List Parameter}
    (h : readParametersWithin levels v = .ok qs) : ∃ n ps, levels = n + 1 ∧ listed v = .ok ps ∧
      List.Forall₂ (fun p q => readParameter n p = .ok q) ps qs := by
  cases levels with
  | zero => cases h
  | succ n =>
    rw [readParametersWithin_succ] at h
    obtain ⟨ps, hps, h⟩ := except_bind_eq_ok.1 h
    exact ⟨n, ps, rfl, liftFault_eq_ok.1 hps, except_mapM_eq_ok.1 h⟩

/-- Members that were read are those of a list, one record for each, or count as nothing. -/
theorem readMembers_eq_ok {levels : Nat} {v : Value} {members : Parameters} (h : readMembers levels v = .ok members) :
    (v.isTruthy = false ∧ (members = .absent ∨ members = .list [])) ∨
      ∃ n ps qs, levels = n + 1 ∧ v = .list ps ∧ members = .list qs ∧
        List.Forall₂ (fun p q => readParameter n p = .ok q) ps qs := by
  by_cases hn : v = .null
  · subst hn
    cases h
    exact .inl ⟨rfl, .inl rfl⟩
  · rw [readMembers_of_ne_null levels hn] at h
    obtain ⟨qs, hqs, rfl⟩ := except_map_eq_ok.1 h
    obtain ⟨n, ps, rfl, hps, hread⟩ := readParametersWithin_eq_ok hqs
    cases v with
    | list items =>
      rw [listed_list] at hps
      cases hps
      exact .inr ⟨n, ps, qs, rfl, rfl, rfl, hread⟩
    | _ =>
      -- nothing but a list has elements that can be read as parameters
      have hreads : Reads (n + 1) false _ := ⟨⟨_, (readMembers_of_ne_null _ hn).trans h⟩, fun h => by cases h⟩
      have hv := (reads_other n false hn (by simp)).1 hreads
      rw [listed_of_not_truthy hv] at hps
      cases hps
      cases hread
      exact .inl ⟨hv, .inr rfl⟩

end Abi

namespace Schema

open Abi

/-! ## Names -/

theorem orElse_orElse_empty (name default : Value) : (name.orElse "").orElse default = name.orElse default := by
  unfold Value.orElse
  by_cases hn : name.isTruthy = true
  · simp only [if_pos hn]
  · simp only [if_neg hn]
    rfl

theorem uniqueNamesFrom_congr {default : Text} {as bs : List Value}
    (h : List.Forall₂ (fun a b => ∀ index, ownName default index a = ownName default index b) as bs) :
    ∀ (index : Nat) (taken : List Key),
      uniqueNamesFrom default index taken as = uniqueNamesFrom default index taken bs := by
  induction h with
  | nil => exact fun _ _ => rfl
  | cons hname _ ih =>
    intro index taken
    simp only [uniqueNamesFrom, hname index, ih (index + 1)]

variable {levels : Nat}

/-- A name that was filled in gives way to the same name as none. -/
theorem ownName_read {p : Value} {q : Parameter} (h : readParameter levels p = .ok q) (default : Text) (index : Nat) :
    ownName default index (Member.raw p).name = ownName default index (Member.read q).name := by
  obtain ⟨entries, type, components, rfl, _, _, rfl⟩ := readParameter_eq_ok h
  simp only [ownName, Member.name, Member.rawField, orElse_orElse_empty]

/-- Parameters that were read get the names that they have in the document. -/
theorem uniqueNames_read {ps : List Value} {qs : List Parameter}
    (h : List.Forall₂ (fun p q => readParameter levels p = .ok q) ps qs) (default : Text) :
    uniqueNames default (ps.map .raw) = uniqueNames default (qs.map .read) := by
  refine uniqueNamesFrom_congr ?_ 0 []
  rw [List.map_map, List.map_map, List.forall₂_map_left_iff, List.forall₂_map_right_iff]
  exact h.imp fun p q hread index => ownName_read hread default index

/-! ## Types -/

/-- Elements that come to the same one by one come to the same in order. -/
theorem mapM_congr_forall₂ {α β γ : Type} {f : α → Outcome γ} {g : β → Outcome γ} {as : List α} {bs : List β}
    (h : List.Forall₂ (fun a b => f a = g b) as bs) : as.mapM f = bs.mapM g := by
  induction h with
  | nil => rfl
  | cons hab _ ih => rw [List.mapM_cons, List.mapM_cons, hab, ih]

theorem type_read {p : Value} {q : Parameter} (h : readParameter levels p = .ok q) :
    (Member.raw p).type = (Member.read q).type := by
  obtain ⟨entries, type, components, rfl, htype, _, rfl⟩ := readParameter_eq_ok h
  simp only [Member.type, Member.rawField, Value.field, htype]
  rfl

theorem components_read {p : Value} {q : Parameter} (h : readParameter levels p = .ok q) :
    ∃ v components, readMembers levels v = .ok components ∧ (Member.raw p).components = .raw v ∧
      (Member.read q).components = .read components := by
  obtain ⟨entries, type, components, rfl, _, hc, rfl⟩ := readParameter_eq_ok h
  exact ⟨_, components, hc, rfl, rfl⟩

/-- A type has the same schema with members of a document as with what was read of them, and the same types lie too
deep. -/
theorem ofTypeWithin_read : ∀ (depth : Nat) {levels : Nat} (type : Value) {v : Value} {members : Parameters},
    readMembers levels v = .ok members → ofTypeWithin depth type (.raw v) = ofTypeWithin depth type (.read members)
  | 0, _, type, _, _, _ => by cases type <;> rfl
  | depth + 1, levels, type, v, members, h => by
    cases type with
    | text type =>
      by_cases ht : type = "tuple"
      · rw [ofTypeWithin, ofTypeWithin, if_pos ht, if_pos ht]
        rcases readMembers_eq_ok h with ⟨hv, rfl | rfl⟩ | ⟨n, ps, qs, rfl, rfl, rfl, hread⟩
        · rw [if_neg (by rw [Members.isPresent, hv]; decide), if_neg (by decide)]
        · rw [if_neg (by rw [Members.isPresent, hv]; decide), if_neg (by decide)]
        · have hpresent : (Members.raw (.list ps)).isPresent = (Members.read (.list qs)).isPresent := by
            cases hread with
            | nil => rfl
            | cons _ _ => rfl
          have hnames := uniqueNames_read hread "item"
          -- each member has what was read of its own members
          have hschemas : (ps.map Member.raw).mapM (fun m => ofTypeWithin depth m.type m.components) =
              (qs.map Member.read).mapM fun m => ofTypeWithin depth m.type m.components := by
            refine mapM_congr_forall₂ ?_
            rw [List.forall₂_map_left_iff, List.forall₂_map_right_iff]
            refine hread.imp fun p q hpq => ?_
            obtain ⟨v, components, hc, hraw, hrec⟩ := components_read hpq
            rw [hraw, hrec, type_read hpq]
            exact ofTypeWithin_read depth _ hc
          have helements : (Members.raw (.list ps)).elements = .ok (ps.map .raw) := rfl
          have helements' : (Members.read (.list qs)).elements = .ok (qs.map .read) := rfl
          rw [hpresent, Outcome.ofFault_bind helements, Outcome.ofFault_bind helements', hnames, hschemas]
      · rw [ofTypeWithin, ofTypeWithin, if_neg ht, if_neg ht]
        cases itemType? type with
        | some base => simp only [ofTypeWithin_read depth (.text base) h]
        | none => rfl
    | _ => rfl

/-- Parameters that were read get the names that they have in the document, and each has the schema, with the notices or
the failure, that it has there. -/
theorem described_like_document {ps : List Value} {qs : List Parameter} (h : readParameters (.list ps) = .ok qs) :
    (∀ default : Text, uniqueNames default (ps.map .raw) = uniqueNames default (qs.map .read)) ∧
      List.Forall₂ (fun p q => ∃ entries type, p = .object entries ∧ Value.lookup? "type" entries = some type ∧
        ofType type (.raw (Value.field "components" entries)) =
          ofType (Member.read q).type (Member.read q).components) ps qs := by
  obtain ⟨levels, parameters, _, hlisted, hread⟩ := readParametersWithin_eq_ok h
  rw [listed_list] at hlisted
  cases hlisted
  refine ⟨uniqueNames_read hread, hread.imp fun p q hpq => ?_⟩
  obtain ⟨entries, type, components, rfl, htype, hc, rfl⟩ := readParameter_eq_ok hpq
  exact ⟨entries, type, rfl, htype, ofTypeWithin_read (maxDepth + 1) type hc⟩

/-- Parameters with and without names and members, some of which count as nothing. -/
def unevenParameters : List Value :=
  [.object [("name", "a"), ("type", "tuple[]"), ("components", .list [.object [("type", "bool")],
      .object [("name", .null), ("type", "tuple"), ("components", .object [])]])],
    .object [("name", .int 0), ("type", .int 5), ("components", "")],
    .object [("name", "a"), ("type", "uint8"), ("components", .null)]]

/-- What is read of them. -/
def unevenRecords : List Parameter :=
  [.record "a" "tuple[]" "tuple[]" (.bool false) (.list [.record "" "bool" "bool" (.bool false) .absent,
      .record "" "tuple" "tuple" (.bool false) (.list [])]),
    .record "" (.int 5) (.int 5) (.bool false) (.list []),
    .record "a" "uint8" "uint8" (.bool false) .absent]

theorem described_like_document_uneven : readParameters (.list unevenParameters) = .ok unevenRecords ∧
    (∀ default : Text,
      uniqueNames default (unevenParameters.map .raw) = uniqueNames default (unevenRecords.map .read)) ∧
      List.Forall₂ (fun p q => ∃ entries type, p = .object entries ∧ Value.lookup? "type" entries = some type ∧
        ofType type (.raw (Value.field "components" entries)) =
          ofType (Member.read q).type (Member.read q).components) unevenParameters unevenRecords := by
  have hread : readParameters (.list unevenParameters) = .ok unevenRecords := rfl
  exact ⟨hread, described_like_document hread⟩

end Schema

end ContractApi
