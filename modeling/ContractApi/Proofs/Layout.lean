import ContractApi.Proofs.Describable
import ContractApi.Proofs.Spelling
/-!
# Layouts: what lies below a type

The layout of a type is the type with all that lies below it: the items of an array, the members of a tuple, and so on
down to types that are neither. It knows no limit of depth.

- `HasLayout` says which layout a type with its members has, and `Layout.schema` describes a type in full. Every type
  has just one layout, if the names of all members below can be told apart (`HasLayout.unique`, `exists_layout`).
- `Layout.cut` gives up on whatever lies some number of levels down. The schema of a type is that of its layout, cut at
  the level below the last one that is supported, and there is a notice for every type that was given up
  (`ofType_eq_cut`).
-/

namespace ContractApi.Schema

open ContractApi.Abi

/-! ## Layouts -/

/-- A type with all the types that lie below it. -/
inductive Layout where
  /-- A type with nothing below it, and its description. -/
  | single (type : Value) (schema : Schema)
  | array (type : Text) (items : Layout)
  | tuple (fields : List (Key × Layout))

namespace Layout

/-- The type that is laid out. -/
def type : Layout → Value
  | single type _ => type
  | array type _ => .text type
  | tuple _ => "tuple"

mutual

/-- The full description of the type. -/
def schema : Layout → Schema
  | single _ schema => schema
  | array _ items => .array items.schema
  | tuple fields => .tuple (fieldSchemas fields)

def fieldSchemas : List (Key × Layout) → List (Key × Schema)
  | [] => []
  | (name, l) :: rest => (name, l.schema) :: fieldSchemas rest

end

mutual

/-- The layout with an unknown type in the place of each that lies some number of levels down. -/
def cut : Nat → Layout → Layout
  | 0, l => .single l.type (.unknown l.type)
  | _ + 1, single type schema => .single type schema
  | levels + 1, array type items => .array type (items.cut levels)
  | levels + 1, tuple fields => .tuple (cutFields levels fields)

def cutFields : Nat → List (Key × Layout) → List (Key × Layout)
  | _, [] => []
  | levels, (name, l) :: rest => (name, l.cut levels) :: cutFields levels rest

end

mutual

/-- The types that lie some number of levels down, in order, as far as they are texts. -/
def typesAt : Nat → Layout → List Text
  | 0, l =>
    match l.type with
    | .text type => [type]
    | _ => []
  | _ + 1, single .. => []
  | levels + 1, array _ items => items.typesAt levels
  | levels + 1, tuple fields => fieldTypesAt levels fields

def fieldTypesAt : Nat → List (Key × Layout) → List Text
  | _, [] => []
  | levels, (_, l) :: rest => l.typesAt levels ++ fieldTypesAt levels rest

end

end Layout

mutual

/-- Whether the type with the members has the layout. -/
inductive HasLayout : Value → Members → Layout → Prop
  /-- A type that is no text is not known. -/
  | other {type : Value} {members : Members} (h : ¬type.IsText) : HasLayout type members (.single type (.unknown type))
  /-- A tuple of something has a field for every member. -/
  | tuple {members : Members} {elements : List Member} {names : List Key} {layouts : List Layout}
      (hp : members.isPresent = true) (he : members.elements = .ok elements)
      (hn : uniqueNames "item" elements = .ok names) (hl : HaveLayouts elements layouts) :
      HasLayout "tuple" members (.tuple (names.zip layouts))
  /-- A tuple of nothing is not known. -/
  | noMembers {members : Members} (hp : members.isPresent = false) :
      HasLayout "tuple" members (.single "tuple" (.unknown "tuple"))
  /-- Any other type may be that of an array, the items of which have the same members. -/
  | array {type base : Text} {members : Members} {items : Layout} (ha : IsArrayOf type base)
      (hl : HasLayout (.text base) members items) : HasLayout (.text type) members (.array type items)
  /-- A type that is none of these may have a description of its own. -/
  | elementary {type : Text} {members : Members} {schema : Schema} (ht : type ≠ "tuple")
      (ha : ∀ base, ¬IsArrayOf type base) (hs : IsElementary type schema) :
      HasLayout (.text type) members (.single (.text type) schema)
  /-- Otherwise it is not known. -/
  | unknown {type : Text} {members : Members} (ht : type ≠ "tuple") (ha : ∀ base, ¬IsArrayOf type base)
      (hs : ∀ schema, ¬IsElementary type schema) :
      HasLayout (.text type) members (.single (.text type) (.unknown (.text type)))

/-- Whether the types of members have the layouts, in order. -/
inductive HaveLayouts : List Member → List Layout → Prop
  | nil : HaveLayouts [] []
  | cons {m : Member} {l : Layout} {ms : List Member} {ls : List Layout} (h : HasLayout m.type m.components l)
      (hrest : HaveLayouts ms ls) : HaveLayouts (m :: ms) (l :: ls)

end

/-! ## One layout for every type -/

theorem HaveLayouts.length_eq : ∀ {ms : List Member} {ls : List Layout}, HaveLayouts ms ls → ms.length = ls.length
  | _, _, .nil => rfl
  | _, _, .cons _ hrest => congrArg (· + 1) hrest.length_eq

mutual

/-- A type has at most one layout. -/
theorem HasLayout.unique : ∀ {type : Value} {members : Members} {l l' : Layout}, HasLayout type members l →
    HasLayout type members l' → l' = l
  | _, _, _, _, .other h, h' => by
    cases h' with
    | other _ => rfl
    | _ => exact absurd ⟨_, rfl⟩ h
  | _, _, _, _, .tuple hp he hn hl, h' => by
    cases h' with
    | other h => exact absurd ⟨_, rfl⟩ h
    | tuple _ he' hn' hl' =>
      cases he.symm.trans he'
      cases hn.symm.trans hn'
      rw [hl.unique hl']
    | noMembers hp' => exact absurd (hp.symm.trans hp') Bool.noConfusion
    | array ha _ => exact absurd rfl ha.ne_tuple
    | elementary ht _ _ | unknown ht _ _ => exact absurd rfl ht
  | _, _, _, _, .noMembers hp, h' => by
    cases h' with
    | other h => exact absurd ⟨_, rfl⟩ h
    | tuple hp' _ _ _ => exact absurd (hp'.symm.trans hp) Bool.noConfusion
    | noMembers _ => rfl
    | array ha _ => exact absurd rfl ha.ne_tuple
    | elementary ht _ _ | unknown ht _ _ => exact absurd rfl ht
  | _, _, _, _, .array ha hl, h' => by
    cases h' with
    | other h => exact absurd ⟨_, rfl⟩ h
    | tuple _ _ _ _ | noMembers _ => exact absurd rfl ha.ne_tuple
    | array ha' hl' =>
      cases ha.base_inj ha'
      rw [hl.unique hl']
    | elementary _ ha' _ | unknown _ ha' _ => exact absurd ha (ha' _)
  | _, _, _, _, .elementary ht ha hs, h' => by
    cases h' with
    | other h => exact absurd ⟨_, rfl⟩ h
    | tuple _ _ _ _ | noMembers _ => exact absurd rfl ht
    | array ha' _ => exact absurd ha' (ha _)
    | elementary _ _ hs' => rw [hs.schema_inj hs']
    | unknown _ _ hs' => exact absurd hs (hs' _)
  | _, _, _, _, .unknown ht ha hs, h' => by
    cases h' with
    | other h => exact absurd ⟨_, rfl⟩ h
    | tuple _ _ _ _ | noMembers _ => exact absurd rfl ht
    | array ha' _ => exact absurd ha' (ha _)
    | elementary _ _ hs' => exact absurd hs' (hs _)
    | unknown _ _ _ => rfl

theorem HaveLayouts.unique : ∀ {ms : List Member} {ls ls' : List Layout}, HaveLayouts ms ls → HaveLayouts ms ls' →
    ls' = ls
  | _, _, _, .nil, h' => by
    cases h'
    rfl
  | _, _, _, .cons h hrest, h' => by
    cases h' with
    | cons h' hrest' => rw [h.unique h', hrest.unique hrest']

end

/-- A name that is missing or a text can be told apart. -/
theorem nameable_of_null_or_text {name : Value} (h : name = .null ∨ name.IsText) : Nameable name := by
  rcases h with rfl | ⟨t, rfl⟩
  · exact fun ht => Bool.noConfusion ht
  · exact fun _ => ⟨.text t, rfl⟩

/-- Whether the names of all members can be told apart, and those of their members, however deep they lie. -/
inductive Members.AllNameable : Members → Prop
  | none {members : Members} (hp : members.isPresent = false) : AllNameable members
  | list {members : Members} {elements : List Member} (he : members.elements = .ok elements)
      (hn : ∀ m ∈ elements, Nameable m.name) (hm : ∀ m ∈ elements, m.components.AllNameable) : AllNameable members

theorem exists_layout_text {members : Members} (h : ∃ l, HasLayout "tuple" members l) (type : Text) :
    ∃ l, HasLayout (.text type) members l := by
  induction hn : type.length using Nat.strongRecOn generalizing type with
  | ind n ih =>
    by_cases ht : type = "tuple"
    · rw [ht]
      exact h
    · by_cases ha : ∃ base, IsArrayOf type base
      · obtain ⟨base, ha⟩ := ha
        obtain ⟨items, hitems⟩ := ih base.length (hn ▸ ha.length_lt) base rfl
        exact ⟨_, .array ha hitems⟩
      · have ha : ∀ base, ¬IsArrayOf type base := not_exists.1 ha
        by_cases hs : ∃ schema, IsElementary type schema
        · obtain ⟨schema, hs⟩ := hs
          exact ⟨_, .elementary ht ha hs⟩
        · exact ⟨_, .unknown ht ha (not_exists.1 hs)⟩

theorem exists_layouts : ∀ {ms : List Member}, (∀ m ∈ ms, ∃ l, HasLayout m.type m.components l) →
    ∃ ls, HaveLayouts ms ls
  | [], _ => ⟨[], .nil⟩
  | m :: ms, h => by
    obtain ⟨l, hl⟩ := h m List.mem_cons_self
    obtain ⟨ls, hls⟩ := exists_layouts fun m' hm' => h m' (List.mem_cons_of_mem m hm')
    exact ⟨l :: ls, .cons hl hls⟩

/-- All that stands in the way of a layout is the members of a tuple. -/
theorem exists_layout_of_tuple {members : Members} (h : ∃ l, HasLayout "tuple" members l) (type : Value) :
    ∃ l, HasLayout type members l := by
  by_cases ht : type.IsText
  · obtain ⟨t, rfl⟩ := ht
    exact exists_layout_text h t
  · exact ⟨_, .other ht⟩

/-- Every type has a layout, if the names of all members below can be told apart. -/
theorem exists_layout {members : Members} (h : members.AllNameable) (type : Value) :
    ∃ l, HasLayout type members l := by
  refine exists_layout_of_tuple ?_ type
  induction h with
  | none hp => exact ⟨_, .noMembers hp⟩
  | @list members elements he hn hm ih =>
    cases hp : members.isPresent with
    | false => exact ⟨_, .noMembers hp⟩
    | true =>
      obtain ⟨names, hnames⟩ := (returns_uniqueNames "item" elements).2 hn
      obtain ⟨layouts, hlayouts⟩ := exists_layouts fun m hmem => exists_layout_of_tuple (ih m hmem) m.type
      exact ⟨_, .tuple hp he hnames hlayouts⟩

/-! ## The schema of a layout -/

theorem Layout.fieldSchemas_eq : ∀ fields : List (Key × Layout),
    fieldSchemas fields = fields.map fun f => (f.1, f.2.schema)
  | [] => rfl
  | f :: fields => congrArg ((f.1, f.2.schema) :: ·) (fieldSchemas_eq fields)

theorem Layout.cutFields_eq (levels : Nat) : ∀ fields : List (Key × Layout),
    cutFields levels fields = fields.map fun f => (f.1, f.2.cut levels)
  | [] => rfl
  | f :: fields => congrArg ((f.1, f.2.cut levels) :: ·) (cutFields_eq levels fields)

theorem Layout.fieldTypesAt_eq (levels : Nat) : ∀ fields : List (Key × Layout),
    fieldTypesAt levels fields = fields.flatMap fun f => f.2.typesAt levels
  | [] => rfl
  | f :: fields => congrArg (f.2.typesAt levels ++ ·) (fieldTypesAt_eq levels fields)

/-- What the fields of a tuple are called does not matter for what lies below them. -/
theorem Layout.fieldTypesAt_zip (levels : Nat) {names : List Key} {layouts : List Layout}
    (h : layouts.length ≤ names.length) :
    fieldTypesAt levels (names.zip layouts) = layouts.flatMap (Layout.typesAt levels) := by
  rw [fieldTypesAt_eq, ← List.flatMap_map Prod.snd (Layout.typesAt levels), List.map_snd_zip h]

theorem Layout.fieldSchemas_cutFields_zip (levels : Nat) (names : List Key) (layouts : List Layout) :
    fieldSchemas (cutFields levels (names.zip layouts)) = names.zip (layouts.map fun l => (l.cut levels).schema) := by
  rw [fieldSchemas_eq, cutFields_eq, List.map_map, List.zip_map_right]
  rfl

/-- What the layout, cut some number of levels down, comes to: its schema, and a notice for every type given up. -/
def Layout.cutOutcome (levels : Nat) (l : Layout) : Outcome Schema :=
  ⟨(l.typesAt levels).map .typeTooDeep, .ok (l.cut levels).schema⟩

theorem Layout.cutOutcome_array (levels : Nat) (type : Text) (items : Layout) :
    (items.cutOutcome levels >>= fun schema => pure (Schema.array schema)) =
      (Layout.array type items).cutOutcome (levels + 1) := by
  rw [Outcome.bind_of_ok rfl]
  exact Outcome.ext (List.append_nil _) rfl

theorem Layout.mapM_cutOutcome (levels : Nat) (layouts : List Layout) :
    layouts.mapM (Layout.cutOutcome levels) = ⟨(layouts.flatMap (Layout.typesAt levels)).map .typeTooDeep,
      .ok (layouts.map fun l => (l.cut levels).schema)⟩ := by
  induction layouts with
  | nil => rfl
  | cons l layouts ih =>
    rw [List.mapM_cons, ih, Outcome.bind_of_ok rfl, Outcome.bind_of_ok rfl]
    refine Outcome.ext ?_ rfl
    simp only [Layout.cutOutcome, Outcome.pure_notices, List.append_nil, List.flatMap_cons, List.map_append]

theorem Layout.cutOutcome_tuple (levels : Nat) {names : List Key} {layouts : List Layout}
    (h : layouts.length ≤ names.length) :
    (layouts.mapM (Layout.cutOutcome levels) >>= fun schemas => pure (Schema.tuple (names.zip schemas))) =
      (Layout.tuple (names.zip layouts)).cutOutcome (levels + 1) := by
  rw [Layout.mapM_cutOutcome, Outcome.bind_of_ok rfl]
  refine Outcome.ext ?_ ?_
  · rw [Layout.cutOutcome, Layout.typesAt, Layout.fieldTypesAt_zip levels h]
    exact List.append_nil _
  · rw [Layout.cutOutcome, Layout.cut, Layout.schema, Layout.fieldSchemas_cutFields_zip]
    rfl

mutual

/-- The schema of a type is that of its layout, cut as many levels down as there are left. -/
theorem ofTypeWithin_eq_cut : ∀ {type : Value} {members : Members} {l : Layout}, HasLayout type members l →
    ∀ levels : Nat, ofTypeWithin levels type members = l.cutOutcome levels
  | type, members, _, .other h, levels => by
    cases type with
    | text t => exact absurd ⟨t, rfl⟩ h
    | _ => cases levels <;> rfl
  | _, _, _, @HasLayout.tuple _ elements names layouts hp he hn hl, levels => by
    cases levels with
    | zero => rfl
    | succ levels =>
      have hlength : layouts.length ≤ names.length := by
        have hnames := length_uniqueNamesFrom hn
        rw [List.length_map, hl.length_eq] at hnames
        exact hnames.ge
      rw [ofTypeWithin, if_pos rfl, if_pos hp, Outcome.ofFault_bind he, Outcome.ofFault_bind hn, mapM_eq_cut hl levels]
      exact Layout.cutOutcome_tuple levels hlength
  | _, _, _, .noMembers hp, levels => by
    cases levels with
    | zero => rfl
    | succ levels =>
      rw [ofTypeWithin, if_pos rfl, hp]
      rfl
  | _, _, _, @HasLayout.array type base _ items ha hl, levels => by
    cases levels with
    | zero => rfl
    | succ levels =>
      rw [ofTypeWithin_array ha, ofTypeWithin_eq_cut hl levels]
      exact Layout.cutOutcome_array levels type items
  | _, _, _, .elementary ht ha hs, levels => by
    cases levels with
    | zero => rfl
    | succ levels =>
      rw [ofTypeWithin, if_neg ht, itemType?_eq_none.2 ha]
      simp only [ofElementary_of_isElementary hs]
      rfl
  | _, _, _, .unknown ht ha hs, levels => by
    cases levels with
    | zero => rfl
    | succ levels =>
      rw [ofTypeWithin, if_neg ht, itemType?_eq_none.2 ha]
      simp only [ofElementary_of_not_isElementary hs]
      rfl

theorem mapM_eq_cut : ∀ {ms : List Member} {ls : List Layout}, HaveLayouts ms ls → ∀ levels : Nat,
    ms.mapM (fun m => ofTypeWithin levels m.type m.components) = ls.mapM (Layout.cutOutcome levels)
  | _, _, .nil, _ => rfl
  | _, _, .cons h hrest, levels => by
    rw [List.mapM_cons, List.mapM_cons, ofTypeWithin_eq_cut h levels, mapM_eq_cut hrest levels]

end

/-! ## The supported levels -/

/-- Every type, the members below which can all be told apart, has just one layout, and its schema is that of this
layout, cut at the first level that is not supported. There is a notice for every type that was given up there. -/
theorem ofType_eq_cut {members : Members} (h : members.AllNameable) (type : Value) :
    ∃ l, HasLayout type members l ∧ (∀ l', HasLayout type members l' → l' = l) ∧
      (ofType type members).notices = (l.typesAt (maxDepth + 1)).map .typeTooDeep ∧
      (ofType type members).result = .ok (l.cut (maxDepth + 1)).schema := by
  obtain ⟨l, hl⟩ := exists_layout h type
  have hcut : ofType type members = l.cutOutcome (maxDepth + 1) := ofTypeWithin_eq_cut hl (maxDepth + 1)
  refine ⟨l, hl, fun l' hl' => hl.unique hl', ?_, ?_⟩
  · rw [hcut]
    rfl
  · rw [hcut]
    rfl

/-- The members of a pair: a number, and truth values in arrays nested 64 levels deep. -/
def lopsided : Members :=
  .raw (.list [.object [("name", "x"), ("type", "uint8")], .object [("type", .text (nested 64 "bool"))]])

theorem lopsided_allNameable : lopsided.AllNameable := by
  have helements : lopsided.elements = .ok [.raw (.object [("name", "x"), ("type", "uint8")]),
      .raw (.object [("type", .text (nested 64 "bool"))])] := rfl
  refine .list helements ?_ ?_
  · intro m hm
    rcases List.mem_pair.1 hm with rfl | rfl
    · exact nameable_of_null_or_text (.inr ⟨"x", rfl⟩)
    · exact nameable_of_null_or_text (.inl rfl)
  · intro m hm
    rcases List.mem_pair.1 hm with rfl | rfl
    · exact .none rfl
    · exact .none rfl

theorem ofType_eq_cut_lopsided : lopsided.AllNameable ∧
    ∃ l, HasLayout "tuple[2]" lopsided l ∧ (∀ l', HasLayout "tuple[2]" lopsided l' → l' = l) ∧
      (ofType "tuple[2]" lopsided).notices = (l.typesAt (maxDepth + 1)).map .typeTooDeep ∧
      (ofType "tuple[2]" lopsided).result = .ok (l.cut (maxDepth + 1)).schema :=
  ⟨lopsided_allNameable, ofType_eq_cut lopsided_allNameable "tuple[2]"⟩

/-- The array and the tuple take two levels, so that the last arrays of the second member are given up. -/
example : (ofType "tuple[2]" lopsided).notices.map Notice.message =
    ["Type nesting too deep, falling back for bool[]."] := by decide +kernel

end ContractApi.Schema
