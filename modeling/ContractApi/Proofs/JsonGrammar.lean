import ContractApi.Proofs.WrittenNumber
import ContractApi.Proofs.WrittenValue
/-!
# What is written is JSON

- `IsJson` is the grammar of JSON texts. JSON has no infinities and nothing for what is not a number, but their names can
  be admitted as values; the reader does so.
- Every value is written as a JSON text in this wider sense, and as one in the proper sense if all of its numbers are
  finite (`isJson_write`). The keys of objects stand between quotes, so they may be any numbers.
-/

namespace ContractApi

namespace Json

/-! ## The grammar -/

/-- Whether the text consists of white space. -/
def IsBlank (t : Text) : Prop := ∀ c ∈ t, isSpace c = true

/-- Whether the text can stand between quotes. -/
inductive IsQuoted : Text → Prop where
  | nil : IsQuoted []
  | plain {c : CodePoint} {t : Text} (hq : c ≠ .ofChar '"') (hb : c ≠ .ofChar '\\') (hc : 0x20 ≤ c.val) (ht : IsQuoted t) :
      IsQuoted (c :: t)
  | escape {c : CodePoint} {t : Text} (hc : c ∈ Text.ofString "\"\\/bfnrt") (ht : IsQuoted t) :
      IsQuoted (.ofChar '\\' :: c :: t)
  | unit {digits t : Text} (hl : digits.length = 4) (hd : ∀ d ∈ digits, (hexValue? d).isSome = true)
      (ht : IsQuoted t) : IsQuoted ("\\u" ++ digits ++ t)

/-- Whether the text is a text between quotes. -/
def IsString (t : Text) : Prop := ∃ quoted, IsQuoted quoted ∧ t = "\"" ++ quoted ++ "\""

mutual

/-- Whether the text is a JSON text. If `wide` is set, the names of numbers beyond all others are values, too. -/
inductive IsJson (wide : Bool) : Text → Prop where
  | word {t : Text} (h : t = "null" ∨ t = "true" ∨ t = "false") : IsJson wide t
  | number {t : Text} (h : IsNumber t) : IsJson wide t
  | beyond {t : Text} (hw : wide = true) (h : t = "NaN" ∨ t = "Infinity" ∨ t = "-Infinity") : IsJson wide t
  | string {t : Text} (h : IsString t) : IsJson wide t
  | emptyArray {blank : Text} (hb : IsBlank blank) : IsJson wide ("[" ++ blank ++ "]")
  | array {t : Text} (h : IsItems wide t) : IsJson wide ("[" ++ t ++ "]")
  | emptyObject {blank : Text} (hb : IsBlank blank) : IsJson wide ("\x7b" ++ blank ++ "\x7d")
  | object {t : Text} (h : IsEntries wide t) : IsJson wide ("\x7b" ++ t ++ "\x7d")
  /-- White space may stand around every value. -/
  | padded {before t after : Text} (hb : IsBlank before) (ha : IsBlank after) (h : IsJson wide t) :
      IsJson wide (before ++ t ++ after)

/-- Whether the text consists of items, set apart by commas. -/
inductive IsItems (wide : Bool) : Text → Prop where
  | one {t : Text} (h : IsJson wide t) : IsItems wide t
  | cons {t rest : Text} (h : IsJson wide t) (hr : IsItems wide rest) : IsItems wide (t ++ "," ++ rest)

/-- Whether the text consists of names with their values, set apart by commas. -/
inductive IsEntries (wide : Bool) : Text → Prop where
  | one {before name after t : Text} (hb : IsBlank before) (hn : IsString name) (ha : IsBlank after)
      (h : IsJson wide t) : IsEntries wide (before ++ name ++ after ++ ":" ++ t)
  | cons {before name after t rest : Text} (hb : IsBlank before) (hn : IsString name) (ha : IsBlank after)
      (h : IsJson wide t) (hr : IsEntries wide rest) :
      IsEntries wide (before ++ name ++ after ++ ":" ++ t ++ "," ++ rest)

end

theorem isBlank_nil : IsBlank [] := fun _ h => absurd h List.not_mem_nil

theorem isBlank_space : IsBlank " " := List.forall_mem_singleton.2 (by decide)

/-! ## Texts -/

theorem isSome_hexValue?_hex (n : Nat) : ∀ d ∈ Text.hex 4 n, (hexValue? d).isSome = true := by
  intro d hd
  obtain ⟨i, _, rfl⟩ := List.mem_map.1 hd
  rw [hexValue?_hexDigit _ (Nat.mod_lt _ (by decide))]
  rfl

theorem isQuoted_unitEscape (n : Nat) {t : Text} (ht : IsQuoted t) : IsQuoted (unitEscape n ++ t) :=
  .unit (length_hex 4 n) (isSome_hexValue?_hex n) ht

/-- The letters that stand for a code point behind a backslash are escapes, apart from the one for sixteen bits. -/
theorem mem_escapes {letter c : CodePoint} (h : unescape? letter = some c) :
    letter ∈ Text.ofString "\"\\/bfnrt" := by
  unfold unescape? at h
  split_ifs at h with h₁ h₂ h₃ h₄ h₅ h₆
  · rcases h₁ with rfl | rfl | rfl <;> decide
  · rw [h₂]; decide
  · rw [h₃]; decide
  · rw [h₄]; decide
  · rw [h₅]; decide
  · rw [h₆]; decide

/-- However a code point is written, it can stand between quotes. -/
theorem isQuoted_writePoint (c : CodePoint) {t : Text} (ht : IsQuoted t) : IsQuoted (writePoint c ++ t) := by
  rcases writePoint_cases c with ⟨letter, hw, _, hl⟩ | ⟨hw, hq, hb, hc⟩ | ⟨_, hw⟩ | ⟨_, hw⟩
  · rw [hw]
    exact .escape (mem_escapes hl) ht
  · rw [hw]
    exact .plain hq hb hc ht
  · rw [hw]
    exact isQuoted_unitEscape _ ht
  · rw [hw, List.append_assoc]
    exact isQuoted_unitEscape _ (isQuoted_unitEscape _ ht)

theorem isString_writeText (t : Text) : IsString (writeText t) := by
  refine ⟨t.flatMap writePoint, ?_, rfl⟩
  induction t with
  | nil => exact .nil
  | cons c t ih =>
    rw [List.flatMap_cons]
    exact isQuoted_writePoint c ih

theorem isString_writeKey : ∀ key : Key, IsString (writeKey key)
  | .bool _ | .int _ | .float _ | .text _ => isString_writeText _

/-! ## Items and entries -/

section Parts

variable {wide : Bool} {blank before after : Text} (hb : IsBlank blank) (ha : IsBlank after)

include hb ha

/-- Values that are set apart by commas and white space are items. -/
theorem isItems_joined {α : Type} {write : α → Text} : ∀ {items : List α} {before : Text}, IsBlank before → items ≠ [] →
    (∀ v ∈ items, IsJson wide (write v)) →
      IsItems wide (before ++ Text.joined (.ofChar ',' :: blank) (items.map write) ++ after)
  | [], _, _, hne, _ => absurd rfl hne
  | [v], before, hbefore, _, h => by
    rw [List.map_singleton, joined_singleton]
    exact .one (.padded hbefore ha (h v List.mem_cons_self))
  | v :: w :: items, before, hbefore, _, h => by
    obtain ⟨hv, hrest⟩ := List.forall_mem_cons.1 h
    have ih := isItems_joined hb (List.cons_ne_nil w items) hrest
    have h := IsItems.cons (.padded hbefore isBlank_nil hv) ih
    rw [List.map_cons, List.map_cons, joined_cons_cons]
    simp only [List.append_nil, List.append_assoc, List.map_cons] at h ⊢
    exact h

/-- Names with values that are set apart by commas and white space are entries. -/
theorem isEntries_joined {layout : Layout} {depth : Nat} : ∀ {entries : List (Key × Value)} {before : Text},
    IsBlank before → entries ≠ [] → (∀ e ∈ entries, IsJson wide (writeAt layout depth e.2)) →
      IsEntries wide (before ++ Text.joined (.ofChar ',' :: blank) (entries.map (writeEntry layout depth)) ++ after)
  | [], _, _, hne, _ => absurd rfl hne
  | [e], before, hbefore, _, h => by
    have hv := IsJson.padded isBlank_space ha (h e List.mem_cons_self)
    have h := IsEntries.one hbefore (isString_writeKey e.1) isBlank_nil hv
    rw [List.map_singleton, joined_singleton, writeEntry]
    simp only [List.append_nil, List.append_assoc] at h ⊢
    exact h
  | e :: e' :: entries, before, hbefore, _, h => by
    obtain ⟨hv, hrest⟩ := List.forall_mem_cons.1 h
    have ih := isEntries_joined hb (List.cons_ne_nil e' entries) hrest
    have hv := IsJson.padded isBlank_space isBlank_nil hv
    have h := IsEntries.cons hbefore (isString_writeKey e.1) isBlank_nil hv ih
    rw [List.map_cons, List.map_cons, joined_cons_cons, writeEntry]
    simp only [List.append_nil, List.append_assoc, List.map_cons] at h ⊢
    exact h

end Parts

end Json

/-! ## Values -/

def Binary64.IsFinite : Binary64 → Prop
  | finite .. => True
  | _ => False

namespace Value

mutual

/-- Whether no number in the value is infinite or none. -/
def Finite : Value → Prop
  | .float x => x.IsFinite
  | .list items => ItemsFinite items
  | .object entries => EntriesFinite entries
  | _ => True

def ItemsFinite : List Value → Prop
  | [] => True
  | v :: rest => v.Finite ∧ ItemsFinite rest

def EntriesFinite : List (Key × Value) → Prop
  | [] => True
  | (_, v) :: rest => v.Finite ∧ EntriesFinite rest

end

end Value

namespace Json

theorem isJson_writeFloat {wide : Bool} {x : Binary64} (h : wide = true ∨ x.IsFinite) :
    IsJson wide (writeFloat x) := by
  cases x with
  | finite negative m q => exact .number (isNumber_finite negative m q)
  | infinity negative =>
    have hw := h.resolve_right id
    cases negative with
    | false => exact .beyond hw (.inr (.inl rfl))
    | true => exact .beyond hw (.inr (.inr rfl))
  | nan => exact .beyond (h.resolve_right id) (.inl rfl)

mutual

/-- Every value is written as a JSON text, in whatever layout of white space and at whatever depth. -/
theorem isJson_writeAt {wide : Bool} {layout : Layout} (hb : layout.Blank) : ∀ (v : Value) (depth : Nat),
    wide = true ∨ v.Finite → IsJson wide (writeAt layout depth v)
  | .null, _, _ => .word (.inl rfl)
  | .bool true, _, _ => .word (.inr (.inl rfl))
  | .bool false, _, _ => .word (.inr (.inr rfl))
  | .int n, _, _ => .number (isNumber_ofInt n)
  | .float _, _, h => isJson_writeFloat h
  | .text t, _, _ => .string (isString_writeText t)
  | .list [], _, _ => .emptyArray isBlank_nil
  | .list (v :: items), depth, h => by
    obtain ⟨blank, hs, hblank⟩ := itemSeparator_eq hb (depth + 1)
    have hitems := isItems_joined hblank (isSpace_lineBreak hb depth) (isSpace_lineBreak hb (depth + 1))
      (List.cons_ne_nil v items) (items_isJson hb (v :: items) (depth + 1) h)
    rw [writeAt, writeItems_eq, bracketed_of_ne_nil _ _ _ _ (by simp), hs]
    exact .array hitems
  | .object [], _, _ => .emptyObject isBlank_nil
  | .object (e :: entries), depth, h => by
    obtain ⟨blank, hs, hblank⟩ := itemSeparator_eq hb (depth + 1)
    have hentries := isEntries_joined hblank (isSpace_lineBreak hb depth) (isSpace_lineBreak hb (depth + 1))
      (List.cons_ne_nil e entries) (entries_isJson hb (e :: entries) (depth + 1) h)
    rw [writeAt, writeEntries_eq, bracketed_of_ne_nil _ _ _ _ (by simp), hs]
    exact .object hentries

theorem items_isJson {wide : Bool} {layout : Layout} (hb : layout.Blank) : ∀ (items : List Value) (depth : Nat),
    wide = true ∨ Value.ItemsFinite items → ∀ v ∈ items, IsJson wide (writeAt layout depth v)
  | [], _, _ => fun _ h => absurd h List.not_mem_nil
  | v :: items, depth, h => List.forall_mem_cons.2
      ⟨isJson_writeAt hb v depth (h.imp_right (·.1)), items_isJson hb items depth (h.imp_right (·.2))⟩

theorem entries_isJson {wide : Bool} {layout : Layout} (hb : layout.Blank) : ∀ (entries : List (Key × Value))
    (depth : Nat), wide = true ∨ Value.EntriesFinite entries → ∀ e ∈ entries, IsJson wide (writeAt layout depth e.2)
  | [], _, _ => fun _ h => absurd h List.not_mem_nil
  | (_, v) :: entries, depth, h => List.forall_mem_cons.2
      ⟨isJson_writeAt hb v depth (h.imp_right (·.1)), entries_isJson hb entries depth (h.imp_right (·.2))⟩

end

/-- Every value is written as a JSON text in the wider sense, and in the proper one if its numbers are finite. -/
theorem isJson_write {wide : Bool} {layout : Layout} (hb : layout.Blank) (v : Value)
    (h : wide = true ∨ v.Finite) : IsJson wide (write layout v) :=
  isJson_writeAt hb v 0 h

end Json

end ContractApi
