import ContractApi.Proofs.PlainSignatures
/-!
# Prototypes are unambiguous

The prototype of an event shows its name and, for each input, the type, whether it is indexed, and the name if there is
one. What is shown can be read off it again.

- `Argument` and `Declaration` are what is shown of an input and of an event, and `HasArgument` and `HasDeclaration` say
  which inputs and events show it. The prototype of an event is the text of its declaration
  (`prototype_of_declaration`).
- No part of an argument holds a space or a comma, and no name is `indexed`, so the parts of an argument tell what they
  are (`Argument.tokens_inj`), and so does the text (`Argument.text_inj`, `Declaration.text_inj`).
- There is one prototype for each event, in order, and equal prototypes are those of equal declarations
  (`eventPrototypes_unambiguous`).
-/

namespace ContractApi

/-- Whether the text holds neither a space nor a comma. -/
def Text.IsToken (t : Text) : Prop := CodePoint.ofChar ' ' ∉ t ∧ CodePoint.ofChar ',' ∉ t

instance (t : Text) : Decidable t.IsToken := inferInstanceAs (Decidable (_ ∧ _))

namespace Abi

open Text

/-! ## Declarations -/

/-- What a prototype shows of an input. -/
structure Argument where
  type : Text
  indexed : Bool
  /-- The name, empty if there is none. -/
  name : Text
  type_ne_nil : type ≠ []
  isToken_type : type.IsToken
  isToken_name : name.IsToken
  name_ne_indexed : name ≠ "indexed"

/-- A part as far as it is shown: not at all if it is empty. -/
def shown (part : Text) : List Text := if part = [] then [] else [part]

/-- The parts of an argument: its type, `indexed` if it is so, and its name if it has one. -/
def Argument.tokens (a : Argument) : List Text :=
  a.type :: (shown (if a.indexed then "indexed" else []) ++ shown a.name)

def Argument.text (a : Argument) : Text := joined " " a.tokens

/-- What a prototype shows of an event. -/
structure Declaration where
  name : Text
  arguments : List Argument
  unopened : CodePoint.ofChar '(' ∉ name

def Declaration.text (d : Declaration) : Text := signatureText d.name (joined ", " (d.arguments.map Argument.text))

/-- Whether the input has the type, the flag and the name. -/
inductive HasArgument : Value → Argument → Prop
  | input {entries : List (Key × Value)} {a : Argument} (ht : Value.lookup? "type" entries = some (.text a.type))
      (hi : (Value.field "indexed" entries).isTruthy = a.indexed) (hn : HasName (Value.field "name" entries) a.name) :
      HasArgument (.object entries) a

/-- Whether the event has the name and inputs for the arguments. -/
inductive HasDeclaration : Value → Declaration → Prop
  | event {entries : List (Key × Value)} {d : Declaration} {inputs : List Value}
      (hn : HasName (Value.field "name" entries) d.name) (hl : listed (Value.field "inputs" entries) = .ok inputs)
      (ha : List.Forall₂ HasArgument inputs d.arguments) : HasDeclaration (.object entries) d

/-! ## The prototype of a declaration -/

theorem HasName.orElse {v : Value} {name : Text} (h : HasName v name) : v.orElse "" = .text name := by
  cases h with
  | absent => rfl
  | text name => cases name <;> rfl

theorem shown_of_ne_nil {part : Text} (h : part ≠ []) : shown part = [part] := if_neg h

/-- What is shown are the parts that count as something. -/
theorem filter_isTruthy (part : Text) : [Value.text part].filter Value.isTruthy = (shown part).map .text := by
  cases part <;> rfl

theorem filter_tokens (a : Argument) :
    [Value.text a.type, .text (if a.indexed then "indexed" else []), .text a.name].filter Value.isTruthy =
      a.tokens.map .text := by
  have hsplit : [Value.text a.type, .text (if a.indexed then "indexed" else []), .text a.name] =
      [.text a.type] ++ ([.text (if a.indexed then "indexed" else [])] ++ [.text a.name]) := rfl
  rw [hsplit, List.filter_append, List.filter_append, filter_isTruthy, filter_isTruthy, filter_isTruthy,
    shown_of_ne_nil a.type_ne_nil, ← List.map_append, ← List.map_append]
  rfl

/-- The prototype of an input is the text of its argument. -/
theorem inputPrototype_of_argument {p : Value} {a : Argument} (h : HasArgument p a) :
    inputPrototype p = .ok a.text := by
  obtain ⟨ht, hi, hn⟩ := h
  rename_i entries
  change joinTexts " " (([(Value.lookup? "type" entries).getD "",
    (if (Value.field "indexed" entries).isTruthy then "indexed" else "" : Value),
    (Value.field "name" entries).orElse ""]).filter Value.isTruthy) = _
  have hflag : (if a.indexed then "indexed" else "" : Value) = .text (if a.indexed then "indexed" else []) := by
    cases a.indexed <;> rfl
  rw [ht, hi, hn.orElse, Option.getD_some, hflag, filter_tokens, joinTexts_texts]
  rfl

/-- The prototype of an event is the text of its declaration. -/
theorem prototype_of_declaration {event : Value} {d : Declaration} (h : HasDeclaration event d) :
    prototype event = .ok d.text := by
  obtain ⟨hn, hl, ha⟩ := h
  rename_i entries inputs
  have hinputs : inputs.mapM inputPrototype = .ok (d.arguments.map Argument.text) :=
    except_mapM_eq_ok.2 (List.forall₂_map_right_iff.2 (ha.imp fun _ _ => inputPrototype_of_argument))
  change (listed (Value.field "inputs" entries) >>= fun inputs => _) = _
  rw [hl, except_ok_bind, hinputs, nameIn, hn.display]
  rfl

/-! ## Reading declarations off their texts -/

theorem mem_shown {t part : Text} (h : t ∈ shown part) : t = part := by
  cases part with
  | nil => cases h
  | cons c part => exact List.mem_singleton.1 h

theorem shown_inj {part part' : Text} (h : shown part = shown part') : part = part' := by
  cases part with
  | nil =>
    cases part' with
    | nil => rfl
    | cons => cases h
  | cons =>
    cases part' with
    | nil => cases h
    | cons => exact (List.cons.inj h).1

/-- No part of an argument holds a space or a comma. -/
theorem Argument.isToken_tokens (a : Argument) : ∀ t ∈ a.tokens, t.IsToken := by
  have hflag : (if a.indexed then Text.ofString "indexed" else []).IsToken := by
    cases a.indexed <;> decide
  refine List.forall_mem_cons.2 ⟨a.isToken_type, List.forall_mem_append.2 ⟨fun t ht => ?_, fun t ht => ?_⟩⟩
  · rwa [mem_shown ht]
  · rw [mem_shown ht]
    exact a.isToken_name

/-- A flag is told from a name. -/
theorem not_flag_eq_shown {name name' : Text} (h : name' ≠ "indexed") :
    shown "indexed" ++ shown name ≠ shown name' := by
  intro heq
  have hmem : Text.ofString "indexed" ∈ shown name' := heq ▸ List.mem_append_left _ List.mem_cons_self
  exact h (mem_shown hmem).symm

/-- The second part is the flag or the name, and a third one the name. -/
theorem Argument.tokens_inj {a b : Argument} (h : a.tokens = b.tokens) : a = b := by
  obtain ⟨type, indexed, name, _, _, _, hname⟩ := a
  obtain ⟨type', indexed', name', _, _, _, hname'⟩ := b
  obtain ⟨rfl, htail⟩ := List.cons.inj h
  have hsame : indexed = indexed' ∧ name = name' := by
    cases indexed with
    | false =>
      cases indexed' with
      | false => exact ⟨rfl, shown_inj htail⟩
      | true => exact absurd htail.symm (not_flag_eq_shown hname)
    | true =>
      cases indexed' with
      | false => exact absurd htail (not_flag_eq_shown hname')
      | true => exact ⟨rfl, shown_inj (List.append_cancel_left htail)⟩
  obtain ⟨rfl, rfl⟩ := hsame
  rfl

theorem Argument.text_inj {a b : Argument} (h : a.text = b.text) : a = b := by
  refine tokens_inj (joined_inj [] ?_ ?_ ?_ h)
  · exact fun t ht => (a.isToken_tokens t ht).1
  · exact fun t ht => (b.isToken_tokens t ht).1
  · exact iff_of_false (List.cons_ne_nil _ _) (List.cons_ne_nil _ _)

theorem Argument.comma_notMem_text (a : Argument) : CodePoint.ofChar ',' ∉ a.text := by
  intro h
  obtain h | ⟨t, ht, h⟩ := mem_joined h
  · exact absurd h (by decide)
  · exact (a.isToken_tokens t ht).2 h

theorem Argument.text_ne_nil (a : Argument) : a.text ≠ [] := by
  obtain ⟨c, hc⟩ := List.exists_mem_of_ne_nil _ a.type_ne_nil
  exact List.ne_nil_of_mem (mem_joined_of_mem " " hc List.mem_cons_self)

/-- Arguments that are joined are told from none. -/
theorem joined_arguments_eq_nil_iff {as : List Argument} : joined ", " (as.map Argument.text) = [] ↔ as = [] := by
  constructor
  · intro h
    cases as with
    | nil => rfl
    | cons a as =>
      obtain ⟨c, hc⟩ := List.exists_mem_of_ne_nil _ a.text_ne_nil
      have hmem : c ∈ joined ", " ((a :: as).map Argument.text) := mem_joined_of_mem ", " hc List.mem_cons_self
      rw [h] at hmem
      cases hmem
  · rintro rfl
    rfl

/-- Arguments are read off a list of them. -/
theorem arguments_inj {as bs : List Argument}
    (h : joined ", " (as.map Argument.text) = joined ", " (bs.map Argument.text)) : as = bs := by
  have hinj : Function.Injective Argument.text := fun _ _ => Argument.text_inj
  have hcomma : ∀ as : List Argument, ∀ t ∈ as.map Argument.text, CodePoint.ofChar ',' ∉ t := fun as =>
    List.forall_mem_map.2 fun a _ => a.comma_notMem_text
  have hempty : as.map Argument.text = [] ↔ bs.map Argument.text = [] := by
    rw [List.map_eq_nil_iff, List.map_eq_nil_iff, ← joined_arguments_eq_nil_iff, h, joined_arguments_eq_nil_iff]
  exact hinj.list_map (joined_inj " " (hcomma as) (hcomma bs) hempty h)

/-- The name goes up to the first parenthesis. -/
theorem Declaration.text_inj {d e : Declaration} (h : d.text = e.text) : d = e := by
  obtain ⟨name, arguments, hn⟩ := d
  obtain ⟨name', arguments', hn'⟩ := e
  have hstop : ∀ {t : Text}, CodePoint.ofChar '(' ∉ t → ∀ c ∈ t, decide (c = CodePoint.ofChar '(') = false :=
    fun ht c hc => decide_eq_false fun heq => ht (heq ▸ hc)
  have hopen : ∀ t : Text, ∀ c ∈ List.head? (Text.ofString "(" ++ t), decide (c = CodePoint.ofChar '(') = true :=
    fun t c hc => decide_eq_true (Option.some.inj hc).symm
  have htext := h
  simp only [text, signatureText, List.append_assoc] at htext
  obtain ⟨rfl, _⟩ := append_inj_of_stop (hstop hn) (hstop hn') (hopen _) (hopen _) htext
  have harguments : arguments = arguments' := arguments_inj (signatureText_inj h)
  subst harguments
  rfl

/-! ## Lists of events -/

/-- Whether the events among the items have these declarations, in order. -/
def Declare (items : List Value) (ds : List Declaration) : Prop :=
  List.Forall₂ HasDeclaration (items.filter (ItemKind.of · = .event)) ds

theorem eventPrototypes_list (items : List Value) :
    eventPrototypes (.list items) = (items.filter (ItemKind.of · = .event)).mapM prototype := by
  rw [eventPrototypes, itemsOfKind_list]
  rfl

theorem eventPrototypes_of_declare {items : List Value} {ds : List Declaration} (h : Declare items ds) :
    eventPrototypes (.list items) = .ok (ds.map Declaration.text) := by
  rw [eventPrototypes_list, except_mapM_eq_ok]
  exact List.forall₂_map_right_iff.2 (h.imp fun _ _ => prototype_of_declaration)

/-- There is one prototype for each event, in order, whatever other items there are. Events with declarations have
prototypes, and those with the same prototypes have the same declarations. -/
theorem eventPrototypes_unambiguous :
    (∀ {items : List Value} {texts : List Text}, eventPrototypes (.list items) = .ok texts ↔
      List.Forall₂ (fun event t => prototype event = .ok t) (items.filter (ItemKind.of · = .event)) texts) ∧
    ∀ {items items' : List Value} {ds ds' : List Declaration}, Declare items ds → Declare items' ds' →
      Returns (eventPrototypes (.list items)) ∧ Returns (eventPrototypes (.list items')) ∧
      (eventPrototypes (.list items) = eventPrototypes (.list items') ↔ ds = ds') := by
  refine ⟨fun {items texts} => ?_, fun {items items' ds ds'} h h' => ?_⟩
  · rw [eventPrototypes_list, except_mapM_eq_ok]
  · have hinj : Function.Injective Declaration.text := fun _ _ => Declaration.text_inj
    rw [eventPrototypes_of_declare h, eventPrototypes_of_declare h', Except.ok.injEq, hinj.list_map.eq_iff]
    exact ⟨returns_ok _, returns_ok _, Iff.rfl⟩

/-- An event with one input. -/
def paid (input : List (Key × Value)) : Value :=
  .object [("type", "event"), ("name", "Paid"), ("inputs", .list [.object input])]

/-- An address that is indexed and has no name. -/
def indexedAddress : Argument := ⟨"address", true, [], by decide, by decide, by decide, by decide⟩

/-- An address whose name says nearly the same. -/
def namedAddress : Argument := ⟨"address", false, "index", by decide, by decide, by decide, by decide⟩

/-- What the prototype of such an event shows. -/
def paidWith (a : Argument) : Declaration := ⟨"Paid", [a], by decide⟩

theorem hasDeclaration_paid {input : List (Key × Value)} {a : Argument} (h : HasArgument (.object input) a) :
    HasDeclaration (paid input) (paidWith a) :=
  .event (.text "Paid") rfl (.cons h .nil)

/-- A flag and a name are told apart, in a list of one event and in one with something else before it. -/
theorem eventPrototypes_unambiguous_paid :
    eventPrototypes (.list [paid [("type", "address"), ("indexed", .int 1)]]) = .ok ["Paid(address indexed)"] ∧
    eventPrototypes (.list [paid [("type", "address"), ("indexed", .int 1)]]) ≠
      eventPrototypes (.list [.object [("type", "receive")], paid [("name", "index"), ("type", "address")]]) := by
  have hindexed : HasArgument (.object [("type", "address"), ("indexed", .int 1)]) indexedAddress :=
    .input rfl rfl .absent
  have hnamed : HasArgument (.object [("name", "index"), ("type", "address")]) namedAddress :=
    .input rfl rfl (.text "index")
  have halone : Declare [paid [("type", "address"), ("indexed", .int 1)]] [paidWith indexedAddress] :=
    .cons (hasDeclaration_paid hindexed) .nil
  have hbehind : Declare [.object [("type", "receive")], paid [("name", "index"), ("type", "address")]]
      [paidWith namedAddress] := .cons (hasDeclaration_paid hnamed) .nil
  obtain ⟨_, _, hiff⟩ := eventPrototypes_unambiguous.2 halone hbehind
  refine ⟨rfl, fun h => ?_⟩
  have hsame := (List.cons.inj (congrArg Declaration.arguments (List.cons.inj (hiff.1 h)).1)).1
  exact absurd (congrArg Argument.indexed hsame) (by decide)

end Abi

end ContractApi
