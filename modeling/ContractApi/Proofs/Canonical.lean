import ContractApi.Proofs.Gate
/-!
# Canonical signatures are unambiguous

What identifies an item is its name and the canonical types of its inputs, which form trees. The text of a tree tells
where it ends and which tree it is, since what is copied into it holds no parenthesis and no comma.

- `TypeTree` and `Identity` hold the proofs of that, and `HasType` and `HasIdentity` say which parameters and items they
  belong to. The canonical signature of such an item is the text of its identity (`canonicalSignature_of_identity`).
- A tree can be read off any text that begins with it (`text_append_inj`), and an identity off its text
  (`Identity.text_inj`).
- Two items have the same canonical signature exactly if they have the same identity, and the selectors of some items
  have one entry for each of their identities (`canonicalSignature_unambiguous`).
-/

namespace ContractApi

/-- The characters that tell the types of a signature apart. -/
def CodePoint.isPunctuation (c : CodePoint) : Bool := c = '(' || c = ')' || c = ','

/-- Whether the text holds no parenthesis and no comma. -/
def Text.Unpunctuated (t : Text) : Prop := ∀ c ∈ t, c.isPunctuation = false

instance (t : Text) : Decidable t.Unpunctuated :=
  decidable_of_iff (t.all fun c => !c.isPunctuation) (by simp [Text.Unpunctuated])

namespace Abi

/-! ## Identities -/

/-- A canonical type. -/
inductive TypeTree where
  /-- A type that is no tuple. -/
  | leaf (type : Text) (nonempty : type ≠ []) (unpunctuated : type.Unpunctuated)
  /-- A tuple with its members and with what follows them, such as the brackets of an array. -/
  | tuple (members : List TypeTree) (ending : Text) (unpunctuated : ending.Unpunctuated)

mutual

/-- The type as a signature shows it. -/
def TypeTree.text : TypeTree → Text
  | leaf type _ _ => type
  | tuple members ending _ => "(" ++ Text.joined "," (TypeTree.texts members) ++ ")" ++ ending

def TypeTree.texts : List TypeTree → List Text
  | [] => []
  | t :: rest => t.text :: TypeTree.texts rest

end

/-- What identifies an item. -/
structure Identity where
  name : Text
  inputs : List TypeTree
  unopened : CodePoint.ofChar '(' ∉ name

/-- The signature of the items with the identity. -/
def Identity.text (i : Identity) : Text := signatureText i.name (Text.joined "," (TypeTree.texts i.inputs))

theorem unpunctuated_expandAliases {type : Text} (h : type.Unpunctuated) : (expandAliases type).Unpunctuated := by
  have ha : (aliases.all fun e => e.2.all fun c => !c.isPunctuation) = true := by decide
  simp only [List.all_eq_true, Bool.not_eq_true'] at ha
  intro c hc
  rcases mem_expandAliases hc with hc | ⟨e, he, hc⟩
  · exact h c hc
  · exact ha e he c hc

theorem expandAliases_ne_nil {type : Text} (h : type ≠ []) : expandAliases type ≠ [] := by
  have ha : ∀ e ∈ aliases, e.2 ≠ [] := by decide
  obtain ⟨word, hw⟩ := List.exists_mem_of_ne_nil (wordRuns type) (List.splitBy_ne_nil.2 h)
  have hne : expandWord word ≠ [] := by
    unfold expandWord
    cases hl : aliases.lookup word with
    | none => exact List.ne_nil_of_mem_splitBy hw
    | some t =>
      obtain ⟨before, after, he, _⟩ := List.lookup_eq_some_iff.1 hl
      exact ha (word, t) (he ▸ List.mem_append_right _ List.mem_cons_self)
  obtain ⟨c, hc⟩ := List.exists_mem_of_ne_nil _ hne
  exact List.ne_nil_of_mem (List.mem_flatMap.2 ⟨word, hw, hc⟩)

mutual

/-- Whether the canonical type of the parameter is the tree. -/
inductive HasType : Value → TypeTree → Prop
  /-- A type that does not begin like a tuple; members that are given with it do not matter. -/
  | leaf {entries : List (Key × Value)} {type : Text} (htype : Value.lookup? "type" entries = some (.text type))
      (hne : type ≠ []) (hu : type.Unpunctuated) (ht : ¬tupleWord <+: type) :
      HasType (.object entries)
        (.leaf (expandAliases type) (expandAliases_ne_nil hne) (unpunctuated_expandAliases hu))
  /-- A tuple with members of the given types. -/
  | tuple {entries : List (Key × Value)} {ending : Text} {members : List TypeTree}
      (htype : Value.lookup? "type" entries = some (.text (tupleWord ++ ending))) (hu : ending.Unpunctuated)
      (hm : HasTypes (Value.field "components" entries) members) : HasType (.object entries) (.tuple members ending hu)

/-- Whether a parameter list, which may be missing, has the canonical types. -/
inductive HasTypes : Value → List TypeTree → Prop
  | absent : HasTypes .null []
  | nil : HasTypes (.list []) []
  | cons {p : Value} {t : TypeTree} {parameters : List Value} {ts : List TypeTree} (hp : HasType p t)
      (hrest : HasTypes (.list parameters) ts) : HasTypes (.list (p :: parameters)) (t :: ts)

end

/-- Whether the name, which may be missing, is the text; a missing one is empty. -/
inductive HasName : Value → Text → Prop
  | absent : HasName .null []
  | text (name : Text) : HasName (.text name) name

/-- Whether the item has the name and inputs of the canonical types. -/
inductive HasIdentity : Value → Identity → Prop
  | item {entries : List (Key × Value)} {i : Identity} (hn : HasName (Value.field "name" entries) i.name)
      (hi : HasTypes (Value.field "inputs" entries) i.inputs) : HasIdentity (.object entries) i

/-! ## The signature of an identity -/

mutual

theorem canonicalType_of_hasType : ∀ {p : Value} {t : TypeTree}, HasType p t → canonicalType p = .ok t.text
  | _, _, .leaf htype hne hu ht => by
    rw [canonicalType, htype, Option.getD_some]
    simp only [List.isPrefixOf_iff_prefix, if_neg ht]
    rfl
  | _, _, @HasType.tuple _ ending _ htype hu hm => by
    have ih := canonicalTypesIn_of_hasTypes hm
    have ht : tupleWord.isPrefixOf (tupleWord ++ ending) = true :=
      List.isPrefixOf_iff_prefix.2 (List.prefix_append _ _)
    rw [canonicalType, htype, Option.getD_some]
    simp only [if_pos ht, memberTypes_eq, ih, List.drop_left]
    rfl

theorem canonicalTypesIn_of_hasTypes : ∀ {v : Value} {ts : List TypeTree}, HasTypes v ts →
    canonicalTypesIn v = .ok (TypeTree.texts ts)
  | _, _, .absent => rfl
  | _, _, .nil => rfl
  | _, _, .cons hp hrest => by
    have ih := canonicalTypesIn_of_hasTypes hrest
    rw [canonicalTypesIn] at ih
    rw [canonicalTypesIn, canonicalTypes, canonicalType_of_hasType hp, ih]
    rfl

end

theorem HasName.display {v : Value} {name : Text} (h : HasName v name) : (v.orElse "").display = name := by
  cases h with
  | absent => rfl
  | text name => cases name <;> rfl

theorem HasTypes.null_or_list {v : Value} {ts : List TypeTree} (h : HasTypes v ts) :
    v = .null ∨ ∃ parameters, v = .list parameters := by
  cases h with
  | absent => exact .inl rfl
  | nil => exact .inr ⟨_, rfl⟩
  | cons => exact .inr ⟨_, rfl⟩

/-- The canonical signature of an item is the text of its identity. -/
theorem canonicalSignature_of_identity {item : Value} {i : Identity} (h : HasIdentity item i) :
    canonicalSignature item = .ok i.text := by
  obtain ⟨hn, hi⟩ := h
  rw [canonicalSignature_eq hi.null_or_list, canonicalTypesIn_of_hasTypes hi, nameIn, hn.display]
  rfl

/-! ## Reading trees off their texts -/

/-- Whether the text can stand behind a type: it is empty, or goes on with another type or with the end of the list. -/
def FollowsType (t : Text) : Prop := ∀ c ∈ t.head?, c = ',' ∨ c = ')'

/-- Whether the text can stand behind a list of types: it is empty, or goes on with the end of the list. -/
def FollowsTypes (t : Text) : Prop := ∀ c ∈ t.head?, c = ')'

theorem FollowsTypes.followsType {t : Text} (h : FollowsTypes t) : FollowsType t := fun c hc => .inr (h c hc)

theorem followsType_comma (t : Text) : FollowsType ("," ++ t) := fun _ hc => .inl (Option.some.inj hc).symm

theorem followsTypes_close (t : Text) : FollowsTypes (")" ++ t) := fun _ hc => (Option.some.inj hc).symm

/-- A text ends where the first character stands that it does not hold. -/
theorem append_inj_of_stop {stops : CodePoint → Bool} : ∀ {a b r s : Text}, (∀ c ∈ a, stops c = false) →
    (∀ c ∈ b, stops c = false) → (∀ c ∈ r.head?, stops c = true) → (∀ c ∈ s.head?, stops c = true) →
    a ++ r = b ++ s → a = b ∧ r = s
  | [], [], _, _, _, _, _, _, h => ⟨rfl, h⟩
  | [], c :: b, _, _, _, hb, hr, _, h => by
    subst h
    exact absurd (hr c rfl) (by simp [hb c List.mem_cons_self])
  | c :: a, [], _, _, ha, _, _, hs, h => by
    subst h
    exact absurd (hs c rfl) (by simp [ha c List.mem_cons_self])
  | c :: a, d :: b, r, s, ha, hb, hr, hs, h => by
    obtain ⟨rfl, htail⟩ := List.cons.inj h
    obtain ⟨rfl, hrest⟩ := append_inj_of_stop (List.forall_mem_cons.1 ha).2 (List.forall_mem_cons.1 hb).2 hr hs htail
    exact ⟨rfl, hrest⟩

theorem FollowsType.isPunctuation {t : Text} (h : FollowsType t) : ∀ c ∈ t.head?, c.isPunctuation = true := by
  intro c hc
  rcases h c hc with rfl | rfl <;> rfl

theorem unpunctuated_append_inj {a b r s : Text} (ha : a.Unpunctuated) (hb : b.Unpunctuated) (hr : FollowsType r)
    (hs : FollowsType s) (h : a ++ r = b ++ s) : a = b ∧ r = s :=
  append_inj_of_stop ha hb hr.isPunctuation hs.isPunctuation h

/-- The text of a tree is not empty and does not begin with the end of a list. -/
theorem not_followsTypes_text (t : TypeTree) (r : Text) : ¬FollowsTypes (t.text ++ r) := by
  intro h
  cases t with
  | leaf type hne hu =>
    obtain ⟨c, type, rfl⟩ := List.exists_cons_of_ne_nil hne
    have hc := hu c List.mem_cons_self
    rw [h c rfl] at hc
    cases hc
  | tuple members ending hu => exact absurd (h '(' rfl) (by decide)

/-- What stands behind the first of several types, if the text stands behind the last one. -/
def behindFirst (ts : List TypeTree) (r : Text) : Text :=
  if ts.isEmpty then r else "," ++ (Text.joined "," (TypeTree.texts ts) ++ r)

theorem joined_texts_cons (t : TypeTree) (ts : List TypeTree) (r : Text) :
    Text.joined "," (TypeTree.texts (t :: ts)) ++ r = t.text ++ behindFirst ts r := by
  cases ts with
  | nil => simp [TypeTree.texts, Text.joined, behindFirst]
  | cons u ts => simp [TypeTree.texts, Text.joined, behindFirst]

theorem followsType_behindFirst (ts : List TypeTree) {r : Text} (h : FollowsTypes r) :
    FollowsType (behindFirst ts r) := by
  cases ts with
  | nil => exact h.followsType
  | cons t ts => exact followsType_comma _

/-- Either nothing or a comma comes before the types that are left. -/
theorem behindFirst_inj {ts us : List TypeTree} {r s : Text} (hr : FollowsTypes r) (hs : FollowsTypes s)
    (h : behindFirst ts r = behindFirst us s) :
    Text.joined "," (TypeTree.texts ts) ++ r = Text.joined "," (TypeTree.texts us) ++ s := by
  cases ts with
  | nil =>
    cases us with
    | nil => exact h
    | cons u us =>
      subst h
      exact absurd (hr ',' rfl) (by decide)
  | cons t ts =>
    cases us with
    | nil =>
      subst h
      exact absurd (hs ',' rfl) (by decide)
    | cons u us => exact List.append_cancel_left h

mutual

/-- A tree can be read off every text that begins with it. -/
theorem text_append_inj : ∀ {t u : TypeTree} {r s : Text}, FollowsType r → FollowsType s → t.text ++ r = u.text ++ s →
    t = u ∧ r = s
  | .leaf type hne hu, .leaf type' hne' hu', r, s, hr, hs, h => by
    obtain ⟨rfl, hrest⟩ := unpunctuated_append_inj hu hu' hr hs h
    exact ⟨rfl, hrest⟩
  | .leaf type hne hu, .tuple members ending hu', r, s, hr, hs, h => by
    obtain ⟨c, type, rfl⟩ := List.exists_cons_of_ne_nil hne
    have hc := hu c List.mem_cons_self
    obtain ⟨rfl, _⟩ := List.cons.inj h
    cases hc
  | .tuple members ending hu, .leaf type hne hu', r, s, hr, hs, h => by
    obtain ⟨c, type, rfl⟩ := List.exists_cons_of_ne_nil hne
    have hc := hu' c List.mem_cons_self
    obtain ⟨rfl, _⟩ := List.cons.inj h
    cases hc
  | .tuple members ending hu, .tuple members' ending' hu', r, s, hr, hs, h => by
    simp only [TypeTree.text, List.append_assoc, List.append_cancel_left_eq] at h
    obtain ⟨rfl, hclose⟩ := texts_append_inj (followsTypes_close _) (followsTypes_close _) h
    obtain ⟨rfl, hrest⟩ := unpunctuated_append_inj hu hu' hr hs (List.append_cancel_left hclose)
    exact ⟨rfl, hrest⟩

/-- A list of trees can be read off every text that begins with it. -/
theorem texts_append_inj : ∀ {ts us : List TypeTree} {r s : Text}, FollowsTypes r → FollowsTypes s →
    Text.joined "," (TypeTree.texts ts) ++ r = Text.joined "," (TypeTree.texts us) ++ s → ts = us ∧ r = s
  | [], [], r, s, hr, hs, h => ⟨rfl, h⟩
  | [], u :: us, r, s, hr, hs, h => by
    rw [joined_texts_cons] at h
    have hr : FollowsTypes (u.text ++ behindFirst us s) := h ▸ hr
    exact absurd hr (not_followsTypes_text u _)
  | t :: ts, [], r, s, hr, hs, h => by
    rw [joined_texts_cons] at h
    have hs : FollowsTypes (t.text ++ behindFirst ts r) := h ▸ hs
    exact absurd hs (not_followsTypes_text t _)
  | t :: ts, u :: us, r, s, hr, hs, h => by
    rw [joined_texts_cons, joined_texts_cons] at h
    obtain ⟨rfl, hbehind⟩ := text_append_inj (followsType_behindFirst ts hr) (followsType_behindFirst us hs) h
    obtain ⟨rfl, hrest⟩ := texts_append_inj hr hs (behindFirst_inj hr hs hbehind)
    exact ⟨rfl, hrest⟩

end

/-- The name goes up to the first parenthesis, and the rest is a list of trees. -/
theorem Identity.text_inj {i j : Identity} (h : i.text = j.text) : i = j := by
  obtain ⟨name, inputs, hn⟩ := i
  obtain ⟨name', inputs', hn'⟩ := j
  have hname : ∀ {t : Text}, CodePoint.ofChar '(' ∉ t → ∀ c ∈ t, decide (c = CodePoint.ofChar '(') = false :=
    fun ht c hc => decide_eq_false fun e => ht (e ▸ hc)
  have hopen : ∀ t : Text, ∀ c ∈ List.head? (Text.ofString "(" ++ t), decide (c = CodePoint.ofChar '(') = true :=
    fun t c hc => decide_eq_true (Option.some.inj hc).symm
  simp only [Identity.text, signatureText, List.append_assoc] at h
  obtain ⟨rfl, htypes⟩ := append_inj_of_stop (hname hn) (hname hn') (hopen _) (hopen _) h
  obtain ⟨rfl, _⟩ := texts_append_inj (followsTypes_close []) (followsTypes_close []) (List.append_cancel_left htypes)
  rfl

/-- Identities are compared by their signatures. -/
instance : DecidableEq Identity := fun i j =>
  decidable_of_iff (i.text = j.text) ⟨Identity.text_inj, congrArg Identity.text⟩

/-! ## Selectors -/

/-- Whether the items of the kind have these identities, in order. -/
def HaveIdentities (kind : ItemKind) (items : List Value) (ids : List Identity) : Prop :=
  List.Forall₂ HasIdentity (items.filter (ItemKind.of · = kind)) ids

theorem itemsOfKind_list (kind : ItemKind) (items : List Value) :
    itemsOfKind kind (.list items) = .ok (items.filter (ItemKind.of · = kind)) := by
  rw [itemsOfKind, listed_list]
  rfl

/-- The hashes of items stand under the texts of their identities, in order. -/
theorem keys_hashed {hash : Value → Except Fault Text} {items : List Value} {ids : List Identity}
    {entries : List (Text × Text)} (hi : List.Forall₂ HasIdentity items ids)
    (he : List.Forall₂ (fun item e => (do return (← canonicalSignature item, ← hash item)) = Except.ok e) items
      entries) :
    entries.map (·.1) = ids.map Identity.text := by
  induction hi generalizing entries with
  | nil =>
    cases he
    rfl
  | cons hid _ ih =>
    obtain _ | ⟨hentry, hrest⟩ := he
    obtain ⟨t, ht, hentry⟩ := except_bind_eq_ok.1 hentry
    obtain ⟨value, _, hentry⟩ := except_bind_eq_ok.1 hentry
    cases hentry
    cases ht.symm.trans (canonicalSignature_of_identity hid)
    rw [List.map_cons, List.map_cons, ih hrest]

/-- Whether the table has one entry for each of the identities, under its text, and no other. -/
structure OneEntryEach (table : Table Text Text) (ids : List Identity) : Prop where
  keys : Table.keys table = (Table.firsts ids).map Identity.text
  nodup : (Table.keys table).Nodup

/-- Items with one identity share an entry, and others do not. -/
theorem hashTable_oneEntryEach {hash : Value → Except Fault Text} {items : List Value} {ids : List Identity}
    {table : Table Text Text} (hi : List.Forall₂ HasIdentity items ids) (h : hashTable hash items = .ok table) :
    OneEntryEach table ids := by
  obtain ⟨entries, he, h⟩ := except_bind_eq_ok.1 h
  cases h
  refine ⟨?_, Table.nodup_keys_ofList entries⟩
  rw [Table.keys_ofList, keys_hashed hi (except_mapM_eq_ok.1 he), Table.firsts_map fun _ _ => Identity.text_inj]

/-- Items have a table of hashes if each of them has a hash. -/
theorem returns_hashTable {hash : Text → Except Fault Text} {items : List Value}
    (h : ∀ item ∈ items, Returns (canonicalSignature item >>= hash)) :
    Returns (hashTable (fun item => canonicalSignature item >>= hash) items) := by
  refine returns_bind_pure.2 (returns_mapM.2 fun item hmem => ?_)
  have hhash := h item hmem
  obtain ⟨t, ht, _⟩ := returns_bind.1 hhash
  exact returns_bind.2 ⟨t, ht, returns_bind_pure.2 hhash⟩

/-- Items with identities and without surrogates have hashes. -/
theorem returns_hash {hash : Text → Except Fault Text} (hh : ∀ t : Text, t.Plain → Returns (hash t))
    {items : List Value} {ids : List Identity} (hi : List.Forall₂ HasIdentity items ids)
    (hp : ∀ item ∈ items, item.Plain) : ∀ item ∈ items, Returns (canonicalSignature item >>= hash) := by
  intro item hmem
  have hplain := hp item hmem
  obtain ⟨i, _, _, hinputs⟩ := exists_of_forall₂ (List.Forall₂.flip hi) item hmem
  have htypes := canonicalTypesIn_of_hasTypes hinputs
  exact (returns_hashed hh hplain hinputs.null_or_list).2 ⟨_, htypes⟩

theorem selectors_eq_ok {items : List Value} {s : Selectors} :
    Selectors.of (.list items) = .ok s ↔
      hashTable selector (items.filter (ItemKind.of · = .function)) = .ok s.functions ∧
      hashTable selector (items.filter (ItemKind.of · = .error)) = .ok s.errors ∧
      hashTable topic (items.filter (ItemKind.of · = .event)) = .ok s.events := by
  simp only [Selectors.of, itemsOfKind_list]
  constructor
  · intro h
    obtain ⟨_, hl, h⟩ := except_bind_eq_ok.1 h
    cases hl
    obtain ⟨functions, hf, h⟩ := except_bind_eq_ok.1 h
    obtain ⟨_, hl, h⟩ := except_bind_eq_ok.1 h
    cases hl
    obtain ⟨errors, he, h⟩ := except_bind_eq_ok.1 h
    obtain ⟨_, hl, h⟩ := except_bind_eq_ok.1 h
    cases hl
    obtain ⟨events, hv, h⟩ := except_bind_eq_ok.1 h
    cases h
    exact ⟨hf, he, hv⟩
  · rintro ⟨hf, he, hv⟩
    change (hashTable selector _ >>= fun functions => _) = _
    rw [hf]
    change (hashTable selector _ >>= fun errors => _) = _
    rw [he]
    change (hashTable topic _ >>= fun events => _) = _
    rw [hv]
    rfl

/-- Two items have the same canonical signature exactly if they have the same identity. So the selectors of some items
have one entry for each identity that items of the kind have; they exist if there are no surrogates. -/
theorem canonicalSignature_unambiguous :
    (∀ {a b : Value} {i j : Identity}, HasIdentity a i → HasIdentity b j →
      Returns (canonicalSignature a) ∧ Returns (canonicalSignature b) ∧
        (canonicalSignature a = canonicalSignature b ↔ i = j)) ∧
    ∀ {items : List Value} {functions errors events : List Identity}, HaveIdentities .function items functions →
      HaveIdentities .error items errors → HaveIdentities .event items events →
        ((∀ item ∈ items, item.Plain) → Returns (Selectors.of (.list items))) ∧
        ∀ s, Selectors.of (.list items) = .ok s →
          OneEntryEach s.functions functions ∧ OneEntryEach s.errors errors ∧ OneEntryEach s.events events := by
  refine ⟨fun {a b i j} ha hb => ?_, fun {items functions errors events} hf he hv => ⟨fun hp => ?_, fun s h => ?_⟩⟩
  · rw [canonicalSignature_of_identity ha, canonicalSignature_of_identity hb]
    refine ⟨returns_ok _, returns_ok _, fun h => ?_, fun h => by rw [h]⟩
    exact Identity.text_inj (Except.ok.inj h)
  · have hplain : ∀ kind : ItemKind, ∀ item ∈ items.filter (ItemKind.of · = kind), item.Plain :=
      fun _ item hmem => hp item (List.mem_of_mem_filter hmem)
    have hlong : ∀ t : Text, t.Plain → Returns (signatureHash t) := fun t => (returns_signatureHash t).2
    obtain ⟨fs, hfs⟩ := returns_hashTable (returns_hash returns_shortHash hf (hplain .function))
    obtain ⟨es, hes⟩ := returns_hashTable (returns_hash returns_shortHash he (hplain .error))
    obtain ⟨vs, hvs⟩ := returns_hashTable (returns_hash hlong hv (hplain .event))
    exact ⟨⟨fs, es, vs⟩, selectors_eq_ok.2 ⟨hfs, hes, hvs⟩⟩
  · obtain ⟨hfs, hes, hvs⟩ := selectors_eq_ok.1 h
    exact ⟨hashTable_oneEntryEach hf hfs, hashTable_oneEntryEach he hes, hashTable_oneEntryEach hv hvs⟩

/-- A function with one input. -/
def withInput (input : List (Key × Value)) : Value :=
  .object [("type", "function"), ("name", "f"), ("inputs", .list [.object input])]

/-- The identity of a function with one input. -/
def identityOf (t : TypeTree) : Identity := ⟨"f", [t], by decide⟩

theorem hasIdentity_withInput {input : List (Key × Value)} {t : TypeTree} (h : HasType (.object input) t) :
    HasIdentity (withInput input) (identityOf t) :=
  .item (.text "f") (.cons h .nil)

/-- The canonical type `uint256`. -/
def wholeNumber : TypeTree := .leaf "uint256" (by decide) (by decide)

theorem hasType_uint : HasType (.object [("type", "uint")]) wholeNumber :=
  @HasType.leaf _ "uint" rfl (by decide) (by decide) (by decide)

theorem hasType_uint256 : HasType (.object [("name", "x"), ("type", "uint256")]) wholeNumber :=
  @HasType.leaf _ "uint256" rfl (by decide) (by decide) (by decide)

/-- The canonical type `(uint256)`. -/
def single : TypeTree := .tuple [wholeNumber] [] (by decide)

theorem hasType_single :
    HasType (.object [("type", "tuple"), ("components", .list [.object [("type", "uint")]])]) single :=
  @HasType.tuple _ [] _ rfl (by decide) (.cons hasType_uint .nil)

/-- Functions that take a number, the same number under a name and another spelling, and a tuple of such a number. -/
def spellings : List Value := [withInput [("type", "uint")], withInput [("name", "x"), ("type", "uint256")],
  withInput [("type", "tuple"), ("components", .list [.object [("type", "uint")]])]]

theorem plain_spellings : ∀ item ∈ spellings, item.Plain := by
  have hs := Text.plain_ofString
  refine Value.itemsPlain_iff.1 ?_
  simp [spellings, withInput, Value.Plain, Value.ItemsPlain, Value.EntriesPlain, Key.display, hs]

/-- Two spellings of a type share a signature and an entry, and a tuple of it has its own. -/
theorem canonicalSignature_unambiguous_spellings :
    canonicalSignature (withInput [("type", "uint")]) =
      canonicalSignature (withInput [("name", "x"), ("type", "uint256")]) ∧
    ∃ s, Selectors.of (.list spellings) = .ok s ∧
      Table.keys s.functions = [(identityOf wholeNumber).text, (identityOf single).text] := by
  have huint := hasIdentity_withInput hasType_uint
  have huint256 := hasIdentity_withInput hasType_uint256
  have hsingle := hasIdentity_withInput hasType_single
  obtain ⟨hsame, htables⟩ := canonicalSignature_unambiguous
  have hfunctions : HaveIdentities .function spellings
      [identityOf wholeNumber, identityOf wholeNumber, identityOf single] :=
    .cons huint (.cons huint256 (.cons hsingle .nil))
  obtain ⟨hreturns, hentries⟩ := htables hfunctions .nil .nil
  obtain ⟨s, hs⟩ := hreturns plain_spellings
  obtain ⟨⟨hkeys, _⟩, _⟩ := hentries s hs
  exact ⟨(hsame huint huint256).2.2.2 rfl, s, hs, hkeys.trans (by rfl)⟩

end Abi
end ContractApi
