import ContractApi.Proofs.WholeWords
/-!
# Canonical types are canonical

The canonical type of a parameter is its own canonical type, and brackets behind a type stay behind its canonical type.
Both hold as long as a type that begins like a tuple goes on with brackets only.

- `TypedAs` says what holds of the types that are rendered, those of a parameter and of the members of tuples at any
  depth. Parameters with texts for types have canonical types; what holds of expanded types and is kept by tuples holds
  of these (`exists_canonicalType`).
- A text is `IsCanonical` if expansion leaves it as it is and it does not begin like a tuple. It is then the canonical
  type of a parameter of that type (`canonicalType_of_isCanonical`).
- `canonicalType_stable` puts this together.
-/

namespace ContractApi.Abi

open Text

/-! ## Parameters and the types that are rendered -/

mutual

/-- Whether the parameter has a type of the kind, and so have the members that are rendered with it, which are those of
a type that begins like a tuple. A missing type is empty. -/
inductive TypedAs (P : Text → Prop) : Value → Prop
  | object {entries : List (Key × Value)} {type : Text} (htype : (Value.lookup? "type" entries).getD "" = .text type)
      (hp : P type) (hm : tupleWord <+: type → AllTypedAs P (Value.field "components" entries)) :
      TypedAs P (.object entries)

/-- Whether there is no list, or one of such parameters. -/
inductive AllTypedAs (P : Text → Prop) : Value → Prop
  | absent : AllTypedAs P .null
  | list {parameters : List Value} (h : ∀ p ∈ parameters, TypedAs P p) : AllTypedAs P (.list parameters)

end

theorem AllTypedAs.null_or_list {P : Text → Prop} {v : Value} (h : AllTypedAs P v) :
    v = .null ∨ ∃ parameters, v = .list parameters := by
  cases h with
  | absent => exact .inl rfl
  | list => exact .inr ⟨_, rfl⟩

section Types

variable {entries : List (Key × Value)}

theorem canonicalType_plain {type : Text} (htype : (Value.lookup? "type" entries).getD "" = .text type)
    (ht : ¬tupleWord <+: type) : canonicalType (.object entries) = .ok (expandAliases type) := by
  rw [canonicalType, htype]
  simp only [List.isPrefixOf_iff_prefix, if_neg ht]

theorem canonicalType_tuple {ending : Text} {types : List Text}
    (htype : (Value.lookup? "type" entries).getD "" = .text (tupleWord ++ ending))
    (hm : canonicalTypesIn (Value.field "components" entries) = .ok types) :
    canonicalType (.object entries) = .ok ("(" ++ joined "," types ++ ")" ++ ending) := by
  have ht : tupleWord.isPrefixOf (tupleWord ++ ending) = true :=
    List.isPrefixOf_iff_prefix.2 (List.prefix_append _ _)
  rw [canonicalType, htype]
  simp only [if_pos ht, memberTypes_eq, hm, List.drop_left]
  rfl

theorem canonicalTypes_eq_mapM (parameters : List Value) :
    canonicalTypes parameters = parameters.mapM canonicalType := by
  induction parameters with
  | nil => rfl
  | cons p rest ih => rw [canonicalTypes, List.mapM_cons, ih]

theorem exists_canonicalTypes {Q : Text → Prop} : ∀ {parameters : List Value},
    (∀ p ∈ parameters, ∃ t, canonicalType p = .ok t ∧ Q t) →
      ∃ types, canonicalTypes parameters = .ok types ∧ ∀ t ∈ types, Q t
  | [], _ => ⟨[], rfl, fun _ h => absurd h List.not_mem_nil⟩
  | p :: rest, h => by
    obtain ⟨⟨t, ht, hq⟩, hrest⟩ := List.forall_mem_cons.1 h
    obtain ⟨types, htypes, hall⟩ := exists_canonicalTypes hrest
    refine ⟨t :: types, ?_, List.forall_mem_cons.2 ⟨hq, hall⟩⟩
    rw [canonicalTypes, ht, htypes]
    rfl

end Types

/-- Whether types of one kind have canonical types of the other: their expansions are such, and so are tuples of
such. -/
structure RendersAs (P Q : Text → Prop) : Prop where
  plain : ∀ type, P type → ¬tupleWord <+: type → Q (expandAliases type)
  tuple : ∀ types ending, P (tupleWord ++ ending) → (∀ t ∈ types, Q t) → Q ("(" ++ joined "," types ++ ")" ++ ending)

mutual

/-- A typed parameter has a canonical type, of the kind that types of its kind have. -/
theorem exists_canonicalType {P Q : Text → Prop} (hr : RendersAs P Q) : ∀ {p : Value}, TypedAs P p →
    ∃ t, canonicalType p = .ok t ∧ Q t
  | _, @TypedAs.object _ _ type htype hp hm => by
    by_cases h : tupleWord <+: type
    · obtain ⟨types, htypes, hall⟩ := exists_canonicalTypesIn hr (hm h)
      obtain ⟨ending, rfl⟩ := h
      exact ⟨_, canonicalType_tuple htype htypes, hr.tuple types ending hp hall⟩
    · exact ⟨_, canonicalType_plain htype h, hr.plain type hp h⟩

theorem exists_canonicalTypesIn {P Q : Text → Prop} (hr : RendersAs P Q) : ∀ {v : Value}, AllTypedAs P v →
    ∃ types, canonicalTypesIn v = .ok types ∧ ∀ t ∈ types, Q t
  | _, .absent => ⟨[], rfl, fun _ h => absurd h List.not_mem_nil⟩
  | _, .list h => by
    rw [canonicalTypesIn]
    exact exists_canonicalTypes fun p hp => exists_canonicalType hr (h p hp)

end

/-- Parameters with texts for types can be rendered. -/
theorem returns_canonicalTypesIn {P : Text → Prop} {v : Value} (h : AllTypedAs P v) : Returns (canonicalTypesIn v) := by
  obtain ⟨types, htypes, _⟩ :=
    exists_canonicalTypesIn (Q := fun _ => True) ⟨fun _ _ _ => trivial, fun _ _ _ _ => trivial⟩ h
  exact ⟨types, htypes⟩

/-! ## Canonical texts -/

/-- Whether the type does not begin like a tuple, or is that of a tuple or of an array of tuples. -/
def IsBracketed (type : Text) : Prop :=
  ¬tupleWord <+: type ∨ ∃ brackets, IsBrackets brackets ∧ type = tupleWord ++ brackets

/-- Whether expansion leaves the text as it is, and it does not begin like a tuple. -/
structure IsCanonical (t : Text) : Prop where
  expanded : expandAliases t = t
  not_tuple : ¬tupleWord <+: t

/-- A canonical text is the canonical type of a parameter of that type. -/
theorem canonicalType_of_isCanonical {t : Text} (h : IsCanonical t) :
    canonicalType (.object [("type", .text t)]) = .ok t := by
  rw [canonicalType_plain rfl h.not_tuple, h.expanded]

theorem isCanonical_expandAliases {type : Text} (h : ¬tupleWord <+: type) : IsCanonical (expandAliases type) :=
  ⟨expandAliases_expandAliases type, not_tuple_expandAliases h⟩

/-- Canonical texts in parentheses, with brackets behind them, are canonical: they meet outside words only. -/
theorem isCanonical_tuple {types : List Text} {brackets : Text} (ht : ∀ t ∈ types, IsCanonical t)
    (hb : IsBrackets brackets) : IsCanonical ("(" ++ joined "," types ++ ")" ++ brackets) := by
  have hmembers := expandAliases_joined fun t h => (ht t h).expanded
  have htext : Text.ofString "(" ++ joined "," types ++ Text.ofString ")" ++ brackets =
      CodePoint.ofChar '(' :: (joined "," types ++ CodePoint.ofChar ')' :: brackets) := by
    simp [Text.ofString]
  rw [htext]
  refine ⟨?_, fun h => absurd (List.cons_prefix_cons.1 h).1 (by decide)⟩
  rw [expandAliases_cons (by decide), expandAliases_append_cons _ (by decide), hmembers, expandAliases_brackets hb]

theorem isBrackets_of_isBracketed {ending : Text} (h : IsBracketed (tupleWord ++ ending)) : IsBrackets ending := by
  obtain h | ⟨brackets, hb, h⟩ := h
  · exact absurd (List.prefix_append _ _) h
  · rwa [List.append_cancel_left h]

theorem rendersAs_isCanonical : RendersAs IsBracketed IsCanonical where
  plain _ _ ht := isCanonical_expandAliases ht
  tuple _ _ hp ht := isCanonical_tuple ht (isBrackets_of_isBracketed hp)

/-! ## Brackets behind a type -/

/-- The parameter with an ending behind its type. -/
def withEnding (ending : Text) : Value → Value
  | .object entries =>
    match (Value.lookup? "type" entries).getD "" with
    | .text type => .object (Table.insert "type" (.text (type ++ ending)) entries)
    | _ => .object entries
  | v => v

/-- An ending changes the type of a parameter and leaves its members alone. -/
theorem withEnding_object {entries : List (Key × Value)} {type : Text}
    (htype : (Value.lookup? "type" entries).getD "" = .text type) (ending : Text) :
    ∃ entries', withEnding ending (.object entries) = .object entries' ∧
      (Value.lookup? "type" entries').getD "" = .text (type ++ ending) ∧
      Value.field "components" entries' = Value.field "components" entries := by
  refine ⟨Table.insert "type" (.text (type ++ ending)) entries, ?_, ?_, ?_⟩
  · rw [withEnding, htype]
  · rw [Value.lookup?, Table.get?_insert, if_pos rfl, Option.getD_some]
  · rw [Value.field, Value.lookup?, Table.get?_insert, if_neg (by decide)]
    rfl

/-- Brackets behind the type of a parameter go behind its canonical type. -/
theorem canonicalType_withEnding {p : Value} {t brackets : Text} (h : TypedAs IsBracketed p)
    (ht : canonicalType p = .ok t) (hb : IsBrackets brackets) :
    canonicalType (withEnding brackets p) = .ok (t ++ brackets) := by
  obtain ⟨htype, hp, hm⟩ := h
  rename_i entries type
  obtain ⟨entries', hentries, htype', hcomponents⟩ := withEnding_object htype brackets
  rw [hentries]
  by_cases htuple : tupleWord <+: type
  · obtain ⟨types, htypes⟩ := returns_canonicalTypesIn (hm htuple)
    obtain ⟨ending, rfl⟩ := htuple
    cases (canonicalType_tuple htype htypes).symm.trans ht
    rw [← hcomponents] at htypes
    rw [List.append_assoc] at htype'
    rw [canonicalType_tuple htype' htypes, List.append_assoc _ ending]
  · cases (canonicalType_plain htype htuple).symm.trans ht
    rw [canonicalType_plain htype' (not_tuple_append_brackets htuple hb), expandAliases_append_brackets _ hb]

/-- The canonical type of a parameter is its own canonical type, and brackets behind a type stay behind the canonical
type. -/
theorem canonicalType_stable {p : Value} (h : TypedAs IsBracketed p) : ∃ t, canonicalType p = .ok t ∧
    canonicalType (.object [("type", .text t)]) = .ok t ∧
    ∀ brackets, IsBrackets brackets → canonicalType (withEnding brackets p) = .ok (t ++ brackets) := by
  obtain ⟨t, ht, hcanonical⟩ := exists_canonicalType rendersAs_isCanonical h
  exact ⟨t, ht, canonicalType_of_isCanonical hcanonical, fun brackets hb => canonicalType_withEnding h ht hb⟩

/-- A field with a type and with members. -/
def typed (type : Text) (members : List Value) : Value := .object [("type", .text type), ("components", .list members)]

/-- Pairs of tuples that have an array, an array of tuples and a type with a short spelling in it for members. -/
def nestedPairs : Value :=
  typed "tuple[2]" [typed "uint[3]" [], typed "tuple[]" [typed "byte" []], typed "my.int" []]

theorem typedAs_plain {type : Text} (h : ¬tupleWord <+: type) (members : List Value) :
    TypedAs IsBracketed (typed type members) :=
  .object rfl (.inl h) fun ht => absurd ht h

theorem typedAs_tuple {brackets : Text} (hb : IsBrackets brackets) {members : List Value}
    (h : ∀ p ∈ members, TypedAs IsBracketed p) : TypedAs IsBracketed (typed (tupleWord ++ brackets) members) :=
  .object rfl (.inr ⟨brackets, hb, rfl⟩) fun _ => .list h

theorem isBrackets_open : IsBrackets "[]" := @IsBrackets.cons [] [] (fun _ h => absurd h List.not_mem_nil) .nil

theorem typedAs_nestedPairs : TypedAs IsBracketed nestedPairs := by
  have hdigits : Schema.IsDigits "2" := by
    have hall : (Text.ofString "2").all CodePoint.isDigit = true := by decide
    exact List.all_eq_true.1 hall
  have hbyte : ∀ p ∈ [typed "byte" []], TypedAs IsBracketed p := by
    simpa using @typedAs_plain "byte" (by decide) []
  refine typedAs_tuple (.cons hdigits .nil) ?_
  simp only [List.forall_mem_cons]
  exact ⟨typedAs_plain (by decide) [], typedAs_tuple isBrackets_open hbyte, typedAs_plain (by decide) [],
    fun _ h => absurd h List.not_mem_nil⟩

/-- Every member of a pair is expanded where it stands, and an array of pairs is an array of the same. -/
theorem canonicalType_stable_nestedPairs :
    canonicalType nestedPairs = .ok "(uint256[3],(bytes1)[],my.int256)[2]" ∧
    canonicalType (.object [("type", "(uint256[3],(bytes1)[],my.int256)[2]")]) =
      .ok "(uint256[3],(bytes1)[],my.int256)[2]" ∧
    canonicalType (withEnding "[]" nestedPairs) = .ok "(uint256[3],(bytes1)[],my.int256)[2][]" := by
  have hpairs : canonicalType nestedPairs = .ok "(uint256[3],(bytes1)[],my.int256)[2]" := by rfl
  obtain ⟨t, ht, hfixed, hbrackets⟩ := canonicalType_stable typedAs_nestedPairs
  cases hpairs.symm.trans ht
  exact ⟨hpairs, hfixed, hbrackets "[]" isBrackets_open⟩

end ContractApi.Abi
