import ContractApi.Proofs.Reading
import ContractApi.Proofs.Surrogates
import ContractApi.Proofs.WellFormed
/-!
# Which valid documents can be read

Validation looks into the members of tuples and arrays only, reading into all members there are, and a signature renders
those of every type that begins like a tuple.

- Members that validation does not look at can be read exactly if they are `Readable` (`reads_iff_readable`), and a
  parameter list that it accepts exactly if all that it does not look at below is so (`reads_iff_readableBelow`).
- A valid document without surrogates is read exactly if all that validation does not look at is readable, and fails as
  one that cannot be read otherwise (`readInterface_of_valid`). Not every valid document is read (`valid_not_read`).
-/

namespace ContractApi.Abi

/-! ## Parameters -/

/-- Whether the members of a parameter with this type are rendered with it. -/
def rendersMembers : Value → Bool
  | .text type => tupleWord.isPrefixOf type
  | _ => false

/-- Whether members that nobody looked at can be read with at most `levels` levels, and rendered if they have to be: they
are missing, count as nothing, or are a list of objects that have a type, which has to be a text where it is rendered,
and whose members can be read and rendered in turn. -/
def Readable : Nat → Bool → Value → Prop
  | _, _, .null => True
  | 0, _, _ => False
  | levels + 1, rendered, .list parameters => ∀ p ∈ parameters, ∃ entries type, p = .object entries ∧
      Value.lookup? "type" entries = some type ∧ (rendered = true → type.IsText) ∧
      Readable levels (rendered && rendersMembers type) (Value.field "components" entries)
  | _ + 1, _, v => v.isTruthy = false

/-- Whether all that validation does not look at in a parameter list can be read and rendered: the members of parameters
that are neither tuples nor arrays. -/
def ReadableBelow : Nat → Bool → Value → Prop
  | levels + 1, rendered, .list parameters => ∀ p ∈ parameters, ∀ entries type, p = .object entries →
      Value.field "type" entries = .text type →
      if hasMembers type then
        ReadableBelow levels (rendered && rendersMembers type) (Value.field "components" entries)
      else Readable levels (rendered && rendersMembers type) (Value.field "components" entries)
  | _, _, _ => True

/-- Reads the members of a parameter, if there are any. -/
def readMembers (levels : Nat) : Value → Except Failure Parameters
  | .null => pure .absent
  | members => (readParametersWithin levels members).map .list

/-- Reads a parameter with at most `levels` levels of members. -/
def readParameter (levels : Nat) (p : Value) : Except Failure Parameter := do
  let entries ← liftFault (entriesOf p)
  let type ← liftFault (requiredEntry "type" entries)
  let components ← readMembers levels (Value.field "components" entries)
  return .record ((Value.field "name" entries).orElse "") type ((Value.field "internalType" entries).orElse type)
    (.bool (Value.field "indexed" entries).isTruthy) components

theorem readParametersWithin_succ (levels : Nat) (v : Value) : readParametersWithin (levels + 1) v =
    liftFault (listed v) >>= fun parameters => parameters.mapM (readParameter levels) := by
  rw [readParametersWithin]
  refine congrArg (liftFault (listed v) >>= ·) (funext fun parameters => congrArg (parameters.mapM ·) (funext fun p => ?_))
  refine congrArg (liftFault (entriesOf p) >>= ·) (funext fun entries => ?_)
  refine congrArg (liftFault (requiredEntry "type" entries) >>= ·) (funext fun type => ?_)
  cases Value.field "components" entries <;> rfl

/-- What is read as a parameter is an object with a type, and its name and its members are those of the record. -/
theorem readParameter_eq_ok {levels : Nat} {v : Value} {p : Parameter} (h : readParameter levels v = .ok p) :
    ∃ entries type components, v = .object entries ∧ Value.lookup? "type" entries = some type ∧
      readMembers levels (Value.field "components" entries) = .ok components ∧
      p = .record ((Value.field "name" entries).orElse "") type ((Value.field "internalType" entries).orElse type)
        (.bool (Value.field "indexed" entries).isTruthy) components := by
  obtain ⟨entries, he, h⟩ := except_bind_eq_ok.1 h
  obtain ⟨type, ht, h⟩ := except_bind_eq_ok.1 h
  obtain ⟨components, hc, h⟩ := except_bind_eq_ok.1 h
  cases h
  refine ⟨entries, type, components, ?_, ?_, hc, rfl⟩
  · cases v with
    | object es =>
      cases he
      rfl
    | _ => cases he
  · have ht := liftFault_eq_ok.1 ht
    unfold requiredEntry at ht
    split at ht
    · rename_i v hv
      cases ht
      exact hv
    · cases ht

/-- Whether the members can be read, and rendered if they have to be. -/
def Reads (levels : Nat) (rendered : Bool) (members : Value) : Prop :=
  Returns (readMembers levels members) ∧ (rendered = true → Returns (canonicalTypesIn members))

theorem memberTypes_eq (entries : List (Key × Value)) :
    memberTypes entries = canonicalTypesIn (Value.field "components" entries) := by
  induction entries with
  | nil => rfl
  | cons e rest ih =>
    obtain ⟨key, v⟩ := e
    rw [memberTypes, Value.field, Value.lookup?, Table.get?]
    split
    · rfl
    · exact ih

theorem returns_canonicalTypes {parameters : List Value} :
    Returns (canonicalTypes parameters) ↔ ∀ p ∈ parameters, Returns (canonicalType p) := by
  induction parameters with
  | nil => exact iff_of_true (returns_ok _) fun _ h => absurd h List.not_mem_nil
  | cons p rest ih =>
    rw [canonicalTypes, returns_bind_and fun t => returns_bind_pure, ih, List.forall_mem_cons]

theorem returns_readParameter (levels : Nat) (entries : List (Key × Value)) :
    Returns (readParameter levels (.object entries)) ↔
      (∃ type, Value.lookup? "type" entries = some type) ∧
        Returns (readMembers levels (Value.field "components" entries)) := by
  have ht : Returns (requiredEntry "type" entries) ↔ ∃ type, Value.lookup? "type" entries = some type := by
    unfold requiredEntry
    cases Value.lookup? "type" entries with
    | none => exact iff_of_false (not_returns_error _) fun ⟨_, h⟩ => by cases h
    | some type => exact iff_of_true (returns_ok _) ⟨type, rfl⟩
  rw [← ht, ← returns_liftFault]
  exact returns_bind_and fun type => returns_bind_pure

/-- The canonical type of an object exists if its type is a text and its members are rendered where they have to be. -/
theorem returns_canonicalType {entries : List (Key × Value)} {type : Value}
    (h : Value.lookup? "type" entries = some type) : Returns (canonicalType (.object entries)) ↔
      type.IsText ∧ (rendersMembers type = true → Returns (canonicalTypesIn (Value.field "components" entries))) := by
  rw [canonicalType, h, Option.getD_some, ← memberTypes_eq]
  cases type with
  | text type =>
    simp only [rendersMembers]
    by_cases hr : tupleWord.isPrefixOf type = true
    · rw [if_pos hr, returns_bind_pure]
      exact ⟨fun h => ⟨⟨type, rfl⟩, fun _ => h⟩, fun h => h.2 hr⟩
    · rw [if_neg hr]
      exact iff_of_true (returns_ok _) ⟨⟨type, rfl⟩, fun h => absurd h hr⟩
  | null | bool _ | int _ | float _ | list _ | object _ =>
    refine iff_of_false (not_returns_error _) ?_
    rintro ⟨⟨t, h⟩, _⟩
    cases h

/-- A parameter can be read and rendered exactly if it has a type that fits and its members can be. -/
theorem reads_parameter (levels : Nat) (rendered : Bool) (entries : List (Key × Value)) :
    (Returns (readParameter levels (.object entries)) ∧
        (rendered = true → Returns (canonicalType (.object entries)))) ↔
      ∃ type, Value.lookup? "type" entries = some type ∧ (rendered = true → type.IsText) ∧
        Reads levels (rendered && rendersMembers type) (Value.field "components" entries) := by
  rw [returns_readParameter]
  constructor
  · rintro ⟨⟨⟨type, ht⟩, hm⟩, hr⟩
    rw [returns_canonicalType ht] at hr
    refine ⟨type, ht, fun h => (hr h).1, hm, fun h => ?_⟩
    rw [Bool.and_eq_true] at h
    exact (hr h.1).2 h.2
  · rintro ⟨type, ht, htext, hm, hr⟩
    refine ⟨⟨⟨type, ht⟩, hm⟩, fun h => ?_⟩
    rw [returns_canonicalType ht]
    exact ⟨htext h, fun h' => hr (by rw [h, h']; rfl)⟩

/-! ## Lists of parameters -/

theorem listed_list (parameters : List Value) : listed (.list parameters) = .ok parameters := by
  cases parameters <;> rfl

theorem listed_of_not_truthy {v : Value} (h : v.isTruthy = false) : listed v = .ok [] := by
  rw [listed, h]
  rfl

/-- Only objects can be read as parameters. -/
theorem not_returns_readParameter (levels : Nat) {p : Value} (h : ∀ entries, p ≠ .object entries) :
    ¬Returns (readParameter levels p) := by
  cases p with
  | object entries => exact absurd rfl (h entries)
  | _ =>
    rintro ⟨parameter, hp⟩
    cases hp

theorem reads_list (levels : Nat) (rendered : Bool) (parameters : List Value) :
    Reads (levels + 1) rendered (.list parameters) ↔ ∀ p ∈ parameters,
      Returns (readParameter levels p) ∧ (rendered = true → Returns (canonicalType p)) := by
  have hm : Returns (readMembers (levels + 1) (.list parameters)) ↔ ∀ p ∈ parameters, Returns (readParameter levels p) := by
    rw [readMembers, returns_map, readParametersWithin_succ, listed_list]
    · exact returns_mapM
    · exact fun h => by cases h
  have hc : Returns (canonicalTypesIn (.list parameters)) ↔ ∀ p ∈ parameters, Returns (canonicalType p) := by
    rw [canonicalTypesIn]
    exact returns_canonicalTypes
  rw [Reads, hm, hc]
  exact ⟨fun ⟨hr, hc⟩ p hp => ⟨hr p hp, fun h => hc h p hp⟩, fun h => ⟨fun p hp => (h p hp).1, fun hr p hp => (h p hp).2 hr⟩⟩

theorem elements?_of_listed {v : Value} {elements : List Value} (hv : v.isTruthy = true)
    (h : listed v = .ok elements) : v.elements? = some elements := by
  rw [listed, if_pos hv] at h
  split at h
  · rename_i found
    cases h
    exact found
  · cases h

/-- Of what something other than a list consists of, nothing is an object. -/
theorem ne_object_of_elements? {v : Value} (hl : ∀ items, v ≠ .list items) {elements : List Value}
    (h : v.elements? = some elements) : ∀ p ∈ elements, ∀ entries, p ≠ .object entries := by
  intro p hp entries
  cases v with
  | list items => exact absurd rfl (hl items)
  | text t =>
    cases h
    obtain ⟨c, _, rfl⟩ := List.mem_map.1 hp
    simp
  | object es =>
    cases h
    obtain ⟨e, _, rfl⟩ := List.mem_map.1 hp
    cases e.1 <;> simp [Key.toValue]
  | _ => cases h

theorem ne_nil_of_elements? {v : Value} (hv : v.isTruthy = true) {elements : List Value}
    (h : v.elements? = some elements) : elements ≠ [] := by
  rintro rfl
  cases v with
  | list items =>
    cases h
    cases hv
  | text t =>
    cases t with
    | nil => cases hv
    | cons c t => cases h
  | object es =>
    cases es with
    | nil => cases hv
    | cons e es => cases h
  | _ => cases h

theorem readMembers_of_ne_null (levels : Nat) {v : Value} (h : v ≠ .null) :
    readMembers levels v = (readParametersWithin levels v).map .list := by
  cases v with
  | null => exact absurd rfl h
  | _ => rfl

/-- What is neither null nor a list is read only if it counts as nothing. -/
theorem reads_other (levels : Nat) (rendered : Bool) {v : Value} (hn : v ≠ .null) (hl : ∀ items, v ≠ .list items) :
    Reads (levels + 1) rendered v ↔ v.isTruthy = false := by
  rw [Reads, readMembers_of_ne_null _ hn, returns_map, readParametersWithin_succ]
  constructor
  · -- a text or an object that counts as something has a first element, and that one is no object
    rintro ⟨hr, _⟩
    refine Bool.eq_false_iff.2 fun hv => ?_
    obtain ⟨elements, he, hr⟩ := returns_bind.1 hr
    have he := elements?_of_listed hv (liftFault_eq_ok.1 he)
    obtain ⟨p, hp⟩ := List.exists_mem_of_ne_nil elements (ne_nil_of_elements? hv he)
    exact not_returns_readParameter levels (ne_object_of_elements? hl he p hp) (returns_mapM.1 hr p hp)
  · intro hv
    have h := listed_of_not_truthy hv
    refine ⟨?_, fun _ => ?_⟩
    · rw [h]
      exact returns_ok _
    · cases v with
      | list items => exact absurd rfl (hl items)
      | _ =>
        simp only [canonicalTypesIn, h]
        exact returns_ok _

theorem reads_null (levels : Nat) (rendered : Bool) : Reads levels rendered .null :=
  ⟨⟨.absent, rfl⟩, fun _ => ⟨[], rfl⟩⟩

theorem not_reads_zero (rendered : Bool) {v : Value} (h : v ≠ .null) : ¬Reads 0 rendered v := by
  rintro ⟨⟨parameters, hr⟩, _⟩
  rw [readMembers_of_ne_null _ h] at hr
  cases hr

/-- Members can be read and rendered exactly if they are readable. -/
theorem reads_iff_readable : ∀ (levels : Nat) (rendered : Bool) (v : Value),
    Reads levels rendered v ↔ Readable levels rendered v
  | 0, rendered, v => by
    cases v with
    | null => exact iff_of_true (reads_null 0 rendered) trivial
    | _ => exact iff_of_false (not_reads_zero rendered (by simp)) id
  | levels + 1, rendered, v => by
    cases v with
    | null => exact iff_of_true (reads_null _ rendered) trivial
    | list parameters =>
      rw [reads_list, Readable]
      refine forall_congr' fun p => forall_congr' fun _ => ?_
      cases p with
      | object entries =>
        -- the members of each parameter have one level less
        rw [reads_parameter]
        simp only [reads_iff_readable levels]
        constructor
        · rintro ⟨type, ht, htext, hm⟩
          exact ⟨entries, type, rfl, ht, htext, hm⟩
        · rintro ⟨entries', type, h, ht, htext, hm⟩
          cases h
          exact ⟨type, ht, htext, hm⟩
      | _ =>
        refine iff_of_false (fun h => not_returns_readParameter levels (by simp) h.1) ?_
        rintro ⟨entries, type, h, _⟩
        cases h
    | _ =>
      rw [reads_other levels rendered (by simp) (by simp), Readable] <;> simp

/-! ## Checked lists -/

theorem lookup?_of_field {name : Text} {entries : List (Key × Value)} {v : Value} (hv : v ≠ .null)
    (h : Value.field name entries = v) : Value.lookup? name entries = some v := by
  unfold Value.field at h
  cases hl : Value.lookup? name entries with
  | none =>
    rw [hl] at h
    exact absurd h.symm hv
  | some w =>
    rw [hl] at h
    exact congrArg some h

/-- What validation has made sure of in a list. -/
theorem valid_list {levels : Nat} {parameters : List Value}
    (h : validParametersWithin (levels + 1) (.list parameters) = true) : ∀ p ∈ parameters, ∃ entries type,
      p = .object entries ∧ Value.field "type" entries = .text type ∧
        (hasMembers type = true → validParametersWithin levels (Value.field "components" entries) = true) := by
  intro p hp
  rw [validParametersWithin, List.all_eq_true] at h
  have hp := h p hp
  split at hp
  · rename_i entries _
    split at hp
    · rename_i type htype
      rw [Bool.and_eq_true] at hp
      refine ⟨entries, type, rfl, htype, fun hm => ?_⟩
      have hc := hp.2
      rw [if_pos hm] at hc
      unfold Value.field
      cases hl : Value.lookup? "components" entries with
      | none => cases levels <;> rfl
      | some components =>
        rw [hl] at hc
        exact hc
    · cases hp
  · cases hp

/-- A list that validation accepts can be read and rendered exactly if all that it does not look at is readable. -/
theorem reads_iff_readableBelow : ∀ (levels : Nat) (rendered : Bool) (v : Value), validParametersWithin levels v = true →
    (Reads levels rendered v ↔ ReadableBelow levels rendered v)
  | 0, rendered, v, hv => by
    cases v with
    | null => exact iff_of_true (reads_null 0 rendered) trivial
    | _ => cases hv
  | levels + 1, rendered, v, hv => by
    cases v with
    | null => exact iff_of_true (reads_null _ rendered) trivial
    | list parameters =>
      rw [reads_list, ReadableBelow]
      refine forall_congr' fun p => forall_congr' fun hp => ?_
      obtain ⟨entries, type, rfl, htype, hm⟩ := valid_list hv p hp
      have hl := lookup?_of_field (by simp) htype
      have hr : Reads levels (rendered && rendersMembers (.text type)) (Value.field "components" entries) ↔
          if hasMembers type then
            ReadableBelow levels (rendered && rendersMembers (.text type)) (Value.field "components" entries)
          else Readable levels (rendered && rendersMembers (.text type)) (Value.field "components" entries) := by
        -- validation goes on below only where the type has members; elsewhere nobody has looked
        by_cases hmem : hasMembers type = true
        · rw [if_pos hmem]
          exact reads_iff_readableBelow levels _ _ (hm hmem)
        · rw [if_neg hmem]
          exact reads_iff_readable levels _ _
      rw [reads_parameter]
      constructor
      · rintro ⟨type', hl', _, h⟩ entries' type'' he ht
        cases he
        cases htype.symm.trans ht
        cases hl.symm.trans hl'
        exact hr.1 h
      · intro h
        exact ⟨.text type, hl, fun _ => ⟨type, rfl⟩, hr.2 (h entries type rfl htype)⟩
    | _ => cases hv

/-! ## Items -/

/-- Whether all that validation does not look at in an item can be read and rendered. -/
def ItemReadable (entries : List (Key × Value)) : ItemKind → Prop
  | .function => ReadableBelow (maxDepth + 1) true (Value.field "inputs" entries) ∧
      ReadableBelow (maxDepth + 1) false (Value.field "outputs" entries)
  | .event | .error => ReadableBelow (maxDepth + 1) true (Value.field "inputs" entries)
  | _ => True

/-- Whether all that validation does not look at in a document can be read and rendered. -/
def UncheckedReadable (raw : Value) : Prop :=
  ∀ items, itemList? raw = some items → ∀ entries, .object entries ∈ items →
    ItemReadable entries (ItemKind.of (.object entries))

theorem valid_cases {levels : Nat} {v : Value} (h : validParametersWithin (levels + 1) v = true) :
    v = .null ∨ ∃ parameters, v = .list parameters := by
  cases v with
  | null => exact .inl rfl
  | list parameters => exact .inr ⟨parameters, rfl⟩
  | _ => cases h

theorem returns_readParameters {v : Value} (h : validParameters v = true) :
    Returns (readParameters v) ↔ Returns (readMembers (maxDepth + 1) v) := by
  rcases valid_cases h with rfl | ⟨parameters, rfl⟩
  · exact iff_of_true ⟨[], rfl⟩ ⟨.absent, rfl⟩
  · exact returns_map.symm

theorem returns_joinTexts {separator : Text} {parts : List Value} :
    Returns (joinTexts separator parts) ↔ ∀ v ∈ parts, v.IsText := by
  rw [joinTexts, returns_bind_pure, returns_mapM]
  constructor
  · intro h v hv
    obtain ⟨i, hi⟩ := List.mem_iff_getElem?.1 hv
    have hr := h (v, i) (List.mk_mem_zipIdx_iff_getElem?.2 hi)
    cases v with
    | text t => exact ⟨t, rfl⟩
    | _ => exact absurd hr (not_returns_error _)
  · intro h e he
    obtain ⟨t, ht⟩ := h e.1 (List.fst_mem_of_mem_zipIdx he)
    simp only [ht]
    exact returns_ok t

/-- The plain signature of an item exists exactly if the types of its inputs are texts, as far as there are any. -/
theorem returns_plainSignature {entries : List (Key × Value)} : Returns (plainSignature (.object entries)) ↔
    ∃ parameters, listed (Value.field "inputs" entries) = .ok parameters ∧
      ∀ p ∈ parameters, ∃ es, p = .object es ∧ ((Value.lookup? "type" es).getD "").IsText := by
  have hs : Returns (plainSignature (.object entries)) ↔ ∃ parameters, listed (Value.field "inputs" entries) =
      .ok parameters ∧ ∃ types, (parameters.mapM fun p => do return (Value.lookup? "type" (← entriesOf p)).getD "") =
        .ok types ∧ ∀ v ∈ types, v.IsText := by
    change Returns (listed (Value.field "inputs" entries) >>= fun inputs => _) ↔ _
    refine returns_bind.trans (exists_congr fun parameters => and_congr_right fun _ => ?_)
    refine returns_bind.trans (exists_congr fun types => and_congr_right fun _ => ?_)
    exact returns_bind_pure.trans returns_joinTexts
  rw [hs]
  refine exists_congr fun parameters => and_congr_right fun _ => ?_
  constructor
  · rintro ⟨types, ht, htext⟩ p hp
    obtain ⟨type, htype, hpt⟩ := exists_of_forall₂ (List.Forall₂.flip (except_mapM_eq_ok.1 ht)) p hp
    obtain ⟨es, hes, hpt⟩ := except_bind_eq_ok.1 hpt
    cases hpt
    cases p with
    | object es' =>
      cases hes
      exact ⟨es, rfl, htext _ htype⟩
    | _ => cases hes
  · intro h
    have ht : Returns (parameters.mapM fun p => do return (Value.lookup? "type" (← entriesOf p)).getD "") := by
      refine returns_mapM.2 fun p hmem => ?_
      obtain ⟨es, rfl, _⟩ := h p hmem
      exact returns_ok _
    obtain ⟨types, ht⟩ := ht
    refine ⟨types, ht, fun v hv => ?_⟩
    obtain ⟨p, hmem, hpv⟩ := exists_of_mem_mapM ht v hv
    obtain ⟨es, rfl, htext⟩ := h p hmem
    cases hpv
    exact htext

/-- The plain signature of an item with valid inputs exists. -/
theorem returns_plainSignature_of_valid {entries : List (Key × Value)}
    (h : validParameters (Value.field "inputs" entries) = true) : Returns (plainSignature (.object entries)) := by
  refine returns_plainSignature.2 ?_
  rcases valid_cases h with hv | ⟨parameters, hv⟩
  · rw [hv]
    exact ⟨[], rfl, fun _ h => absurd h List.not_mem_nil⟩
  · rw [hv] at h ⊢
    refine ⟨parameters, listed_list parameters, fun p hp => ?_⟩
    obtain ⟨es, type, hp, htype, _⟩ := valid_list h p hp
    refine ⟨es, hp, ?_⟩
    rw [lookup?_of_field (by simp) htype]
    exact ⟨type, rfl⟩

/-- The canonical signature of an item whose inputs are missing or a list. -/
theorem canonicalSignature_eq {entries : List (Key × Value)}
    (h : Value.field "inputs" entries = .null ∨ ∃ parameters, Value.field "inputs" entries = .list parameters) :
    canonicalSignature (.object entries) = canonicalTypesIn (Value.field "inputs" entries) >>= fun types =>
      pure (signatureText (nameIn entries) (Text.joined "," types)) := by
  change (listed (Value.field "inputs" entries) >>= fun inputs => _) = _
  rcases h with hv | ⟨parameters, hv⟩
  · rw [hv]
    rfl
  · rw [hv, listed_list]
    rfl

theorem plain_nameIn {entries : List (Key × Value)} (hp : Value.EntriesPlain entries) : (nameIn entries).Plain := by
  refine Value.plain_display ?_
  unfold Value.orElse
  split
  · exact Value.plain_field "name" hp
  · exact Text.plain_ofString ""

/-- A hash of the signature of an item without surrogates exists exactly if its inputs can be rendered. -/
theorem returns_hashed {entries : List (Key × Value)} {hash : Text → Except Fault Text}
    (hh : ∀ t : Text, t.Plain → Returns (hash t)) (hp : Value.EntriesPlain entries)
    (h : Value.field "inputs" entries = .null ∨ ∃ parameters, Value.field "inputs" entries = .list parameters) :
    Returns (canonicalSignature (.object entries) >>= hash) ↔
      Returns (canonicalTypesIn (Value.field "inputs" entries)) := by
  rw [canonicalSignature_eq h]
  constructor
  · intro hr
    obtain ⟨t, ht, _⟩ := returns_bind.1 hr
    exact returns_bind_pure.1 ⟨t, ht⟩
  · rintro ⟨types, ht⟩
    refine returns_bind.2 ⟨_, except_bind_eq_ok.2 ⟨types, ht, rfl⟩, hh _ ?_⟩
    have hj := Text.plain_joined (Text.plain_ofString ",") (plain_canonicalTypesIn (Value.plain_field "inputs" hp) ht)
    exact (((plain_nameIn hp).append (Text.plain_ofString "(")).append hj).append (Text.plain_ofString ")")

theorem returns_shortHash (t : Text) (ht : t.Plain) : Returns (shortHash t) := by
  rw [shortHash, returns_map]
  exact (returns_signatureHash t).2 ht

theorem returns_requiredName {entries : List (Key × Value)} (h : (Value.field "name" entries).isTruthy = true) :
    Returns (requiredEntry "name" entries) := by
  have hn : Value.field "name" entries ≠ .null := fun e => by
    rw [e] at h
    cases h
  rw [requiredEntry, lookup?_of_field hn rfl]
  exact returns_ok _

section Records

variable {entries : List (Key × Value)} (hp : Value.EntriesPlain entries)
  (hi : validParameters (Value.field "inputs" entries) = true)

include hp hi

/-- A valid function is read exactly if all that validation does not look at is readable. -/
theorem returns_readFunction (hn : (Value.field "name" entries).isTruthy = true)
    (ho : validParameters (Value.field "outputs" entries) = true) :
    Returns (readFunction (.object entries) entries) ↔ ItemReadable entries .function := by
  have hri := reads_iff_readableBelow (maxDepth + 1) true _ hi
  have hro := reads_iff_readableBelow (maxDepth + 1) false _ ho
  have hs : Returns (selector (.object entries)) ↔ _ := returns_hashed returns_shortHash hp (valid_cases hi)
  rw [readFunction, returns_bind_and fun name => returns_bind_and fun inputs => returns_bind_and fun outputs =>
    returns_bind_and fun signature => returns_bind_and fun selector => returns_bind_pure]
  simp only [returns_liftFault, returns_readParameters hi, returns_readParameters ho, hs]
  rw [ItemReadable, ← hri, ← hro, Reads, Reads]
  constructor
  · -- outputs are read, but they are not part of the signature
    rintro ⟨_, hri, hro, _, hc, _⟩
    exact ⟨⟨hri, fun _ => hc⟩, hro, fun h => by cases h⟩
  · rintro ⟨⟨hri, hc⟩, hro, _⟩
    exact ⟨returns_requiredName hn, hri, hro, returns_plainSignature_of_valid hi, hc rfl, returns_ok _⟩

/-- The same for a valid event. -/
theorem returns_readEvent (hn : (Value.field "name" entries).isTruthy = true) :
    Returns (readEvent (.object entries) entries) ↔ ItemReadable entries .event := by
  have hri := reads_iff_readableBelow (maxDepth + 1) true _ hi
  have ht : Returns (topic (.object entries)) ↔ _ :=
    returns_hashed (fun t => (returns_signatureHash t).2) hp (valid_cases hi)
  rw [readEvent, returns_bind_and fun name => returns_bind_and fun inputs => returns_bind_and fun signature =>
    returns_bind_pure]
  simp only [returns_liftFault, returns_readParameters hi, ht]
  rw [ItemReadable, ← hri, Reads]
  constructor
  · rintro ⟨_, hri, _, hc⟩
    exact ⟨hri, fun _ => hc⟩
  · rintro ⟨hri, hc⟩
    exact ⟨returns_requiredName hn, hri, returns_plainSignature_of_valid hi, hc rfl⟩

/-- The same for a valid error. -/
theorem returns_readError : Returns (readError (.object entries) entries) ↔ ItemReadable entries .error := by
  have hri := reads_iff_readableBelow (maxDepth + 1) true _ hi
  have hs : Returns (selector (.object entries)) ↔ _ := returns_hashed returns_shortHash hp (valid_cases hi)
  rw [readError, returns_bind_and fun inputs => returns_bind_and fun signature => returns_bind_pure]
  simp only [returns_liftFault, returns_readParameters hi, hs]
  rw [ItemReadable, ← hri, Reads]
  constructor
  · rintro ⟨hri, _, hc⟩
    exact ⟨hri, fun _ => hc⟩
  · rintro ⟨hri, hc⟩
    exact ⟨hri, returns_plainSignature_of_valid hi, hc rfl⟩

end Records

/-! ## Documents -/

theorem problemIf_eq_nil {condition : Bool} {problem : Problem} : problemIf condition problem = [] ↔ condition = false := by
  cases condition <;> simp [problemIf]

/-- A valid item without surrogates is read exactly if all that validation does not look at is readable. -/
theorem returns_readItem {item : Value} {index : Nat} (hp : item.Plain) (h : itemProblems item index = []) :
    ∃ entries, item = .object entries ∧
      (Returns (readItem item index) ↔ ItemReadable entries (ItemKind.of (.object entries))) := by
  cases item with
  | object entries =>
    refine ⟨entries, rfl, ?_⟩
    simp only [itemProblems] at h
    split at h
    · simp only [readItem]
      cases hk : ItemKind.of (.object entries) with
      | function =>
        simp only [hk, functionProblems, List.append_eq_nil_iff, problemIf_eq_nil, Bool.not_eq_false'] at h
        obtain ⟨⟨⟨hn, hi⟩, ho⟩, _⟩ := h
        rw [returns_map]
        exact returns_readFunction hp hi hn ho
      | event =>
        simp only [hk, eventProblems, List.append_eq_nil_iff, problemIf_eq_nil, Bool.not_eq_false'] at h
        obtain ⟨⟨hn, hi⟩, _⟩ := h
        rw [returns_map]
        exact returns_readEvent hp hi hn
      | error =>
        simp only [hk, problemIf_eq_nil, Bool.not_eq_false'] at h
        rw [returns_map]
        exact returns_readError hp h
      | constructor | fallback | receive | unknown => exact iff_of_true (returns_ok _) trivial
    · cases h
  | _ => cases h

/-- A valid document has an item list, and nothing is wrong with its items. -/
theorem items_of_valid {raw : Value} (h : (validate raw).isValid = true) :
    ∃ items, itemList? raw = some items ∧ ∀ e ∈ items.zipIdx, itemProblems e.1 e.2 = [] := by
  unfold validate at h
  split at h
  · cases h
  · cases h
  · rename_i items _ hl
    refine ⟨items, hl, fun e he => ?_⟩
    have hn : (items.zipIdx.flatMap fun e => itemProblems e.1 e.2) = [] := by
      simpa [Validation.isValid, Validation.errors] using h
    exact List.flatMap_eq_nil_iff.1 hn e he

theorem plain_of_itemList? {raw : Value} (hp : raw.Plain) {items : List Value} (h : itemList? raw = some items) :
    ∀ item ∈ items, item.Plain := by
  cases raw with
  | list l =>
    cases h
    exact Value.itemsPlain_iff.1 hp
  | object entries =>
    have hf := Value.plain_field "abi" hp
    simp only [itemList?] at h
    split at h
    · rename_i l hl
      cases h
      rw [hl] at hf
      exact Value.itemsPlain_iff.1 hf
    · cases h
  | _ => cases h

/-- A valid document without surrogates is read exactly if all that validation does not look at is readable; otherwise it
fails as one that cannot be read. -/
theorem readInterface_of_valid {raw contractName : Value} (hp : raw.Plain) (hv : (validate raw).isValid = true) :
    ((readInterface raw contractName).Succeeds ↔ UncheckedReadable raw) ∧
      ∀ failure, (readInterface raw contractName).result = .error failure → failure.stage = .reading := by
  obtain ⟨items, hl, hitems⟩ := items_of_valid hv
  have hplain := plain_of_itemList? hp hl
  refine ⟨?_, fun failure h => stage_readInterface h⟩
  rw [succeeds_readInterface hl]
  constructor
  · intro hr items' hl' entries hmem
    cases hl.symm.trans hl'
    obtain ⟨index, hidx⟩ := List.mem_iff_getElem?.1 hmem
    have he := List.mk_mem_zipIdx_iff_getElem?.2 hidx
    obtain ⟨entries', heq, hiff⟩ := returns_readItem (hplain _ hmem) (hitems _ he)
    cases heq
    exact hiff.1 (hr _ he)
  · intro hu e he
    have hmem := List.fst_mem_of_mem_zipIdx he
    obtain ⟨entries, heq, hiff⟩ := returns_readItem (hplain _ hmem) (hitems e he)
    exact hiff.2 (hu items hl entries (heq ▸ hmem))

/-- A function of one integer, for which members are given all the same. -/
def integerWithMembers (members : Value) : Value := .list [.object [("type", "function"), ("name", "f"),
  ("inputs", .list [.object [("type", "uint256"), ("components", members)]])]]

theorem integerWithMembers_plain {members : Value} (h : members.Plain) : (integerWithMembers members).Plain := by
  have hs := Text.plain_ofString
  simp [integerWithMembers, Value.Plain, Value.ItemsPlain, Value.EntriesPlain, Key.display, hs, h]

/-- Members of an integer that have types do no harm. -/
theorem readInterface_of_valid_members :
    (readInterface (integerWithMembers (.list [.object [("type", "bool")]])) .null).Succeeds := by
  have hp : (integerWithMembers (.list [.object [("type", "bool")]])).Plain := by
    have hs := Text.plain_ofString
    exact integerWithMembers_plain ⟨⟨hs _, hs _, trivial⟩, trivial⟩
  refine (readInterface_of_valid hp rfl).1.2 fun items hl entries hmem => ?_
  cases hl
  cases List.mem_singleton.1 hmem
  refine ⟨fun p hp es type he ht => ?_, trivial⟩
  cases List.mem_singleton.1 hp
  cases he
  cases ht
  have hr : Readable maxDepth false (.list [.object [("type", "bool")]]) :=
    List.forall_mem_singleton.2 ⟨_, "bool", rfl, rfl, (fun _ => ⟨_, rfl⟩), trivial⟩
  exact hr

/-- Not every valid document without surrogates is read: validation does not look at the members of an integer. -/
theorem valid_not_read : ¬∀ raw contractName : Value, raw.Plain → (validate raw).isValid = true →
    (readInterface raw contractName).Succeeds := by
  intro h
  have hp : (Value.int 5).Plain := trivial
  obtain ⟨i, hi⟩ := h (integerWithMembers (.int 5)) .null (integerWithMembers_plain hp) rfl
  have he : (readInterface (integerWithMembers (.int 5)) .null).result = .error (.unreadable (.notIterable .int)) := rfl
  rw [he] at hi
  cases hi

end ContractApi.Abi
