import ContractApi.Proofs.WriterRuns
import ContractApi.Proofs.WrittenRecords
/-!
# The lines of products

What can be produced from a document are JSON texts and the prototypes of its events.

- Writes that come file by file: the lines of each file stand together, behind what comes first (`inTurn_groups`), and
  they are all that the file holds (`textOf_groups`).
- `ProductLines` says which lines the products of a document consist of. There are such lines for every document that can
  be converted (`exists_productLines`), and they are those that a conversion gives (`ProductLines.linesOf_eq`).
-/

namespace ContractApi

open Abi OpenApi Output

/-! ## Prototypes -/

namespace Abi

theorem plain_orElse {v : Value} (h : v.Plain) (s : String) : (v.orElse s).Plain := by
  unfold Value.orElse
  split
  · exact h
  · exact Text.plain_ofString s

theorem plain_joinTexts {separator : Text} (hs : separator.Plain) {parts : List Value} (hp : ∀ v ∈ parts, v.Plain)
    {t : Text} (h : joinTexts separator parts = .ok t) : t.Plain := by
  obtain ⟨texts, ht, h⟩ := except_bind_eq_ok.1 h
  cases h
  refine Text.plain_joined hs fun u hu => ?_
  obtain ⟨⟨v, i⟩, hv, hu⟩ := exists_of_mem_mapM ht u hu
  have hplain := hp v (List.fst_mem_of_mem_zipIdx hv)
  cases v with
  | text t =>
    cases hu
    exact hplain
  | _ => cases hu

theorem plain_inputPrototype {entries : List (Key × Value)} (hp : Value.EntriesPlain entries) {t : Text}
    (h : inputPrototype (.object entries) = .ok t) : t.Plain := by
  refine plain_joinTexts (Text.plain_ofString " ") (fun v hv => ?_) h
  have hv := List.mem_of_mem_filter hv
  simp only [List.mem_cons, List.not_mem_nil, or_false] at hv
  rcases hv with rfl | rfl | rfl
  · exact Value.plain_getD_lookup? hp (Text.plain_ofString _)
  · split <;> exact Text.plain_ofString _
  · exact plain_orElse (Value.plain_field _ hp) _

/-- What a plain value lists is plain as far as it consists of objects. -/
theorem plain_of_listed {v : Value} (hv : v.Plain) {elements : List Value} (h : listed v = .ok elements)
    {entries : List (Key × Value)} (he : .object entries ∈ elements) : Value.EntriesPlain entries := by
  by_cases hl : ∃ items, v = .list items
  · obtain ⟨items, rfl⟩ := hl
    cases (listed_list items).symm.trans h
    exact Value.itemsPlain_iff.1 hv _ he
  · by_cases ht : v.isTruthy = true
    · exact absurd rfl (ne_object_of_elements? (fun items heq => hl ⟨items, heq⟩) (elements?_of_listed ht h) _ he entries)
    · cases (listed_of_not_truthy (Bool.not_eq_true _ ▸ ht)).symm.trans h
      cases he

/-- The prototype of an event without surrogates has none. -/
theorem plain_prototype {event : Value} (hp : event.Plain) {t : Text} (h : prototype event = .ok t) : t.Plain := by
  cases event with
  | object entries =>
    change (listed (Value.field "inputs" entries) >>= fun inputs => _) = _ at h
    obtain ⟨inputs, hl, h⟩ := except_bind_eq_ok.1 h
    obtain ⟨texts, ht, h⟩ := except_bind_eq_ok.1 h
    cases h
    refine (((plain_nameIn hp).append (Text.plain_ofString "(")).append ?_).append (Text.plain_ofString ")")
    refine Text.plain_joined (Text.plain_ofString ", ") fun u hu => ?_
    obtain ⟨p, hmem, hu⟩ := exists_of_mem_mapM ht u hu
    cases p with
    | object es => exact plain_inputPrototype (plain_of_listed (Value.plain_field _ hp) hl hmem) hu
    | _ => cases hu
  | _ => cases h

end Abi

/-! ## Lines that come file by file -/

/-- The text of lines, each with its end. -/
def Text.ofLines (lines : List Text) : Text := lines.flatMap (· ++ "\n")

namespace Output.Writer

theorem inTurn_append {α : Type} (first each : Write → List α) (before ws ws' : List Write) :
    inTurn first each before (ws ++ ws') = inTurn first each before ws ++ inTurn first each (before ++ ws) ws' := by
  induction ws generalizing before with
  | nil => simp [inTurn]
  | cons x rest ih => simp [inTurn, ih, List.append_assoc]

/-- If all files were written to before, nothing comes first. -/
theorem inTurn_of_mem {α : Type} (first each : Write → List α) {before ws : List Write}
    (h : ∀ x ∈ ws, x.file ∈ filesOf before) : inTurn first each before ws = ws.flatMap each := by
  induction ws generalizing before with
  | nil => rfl
  | cons x rest ih =>
    obtain ⟨hx, hrest⟩ := List.forall_mem_cons.1 h
    have hmem : ∀ y ∈ rest, y.file ∈ filesOf (before ++ [x]) := by
      intro y hy
      rw [filesOf_concat, if_pos hx]
      exact hrest y hy
    rw [inTurn, if_pos hx, ih hmem]
    rfl

/-- A file's lines stand together, behind what comes first. -/
theorem inTurn_group {α : Type} (first : Text → List α) (each : Write → List α) {before : List Write} {file : Text}
    (hnew : file ∉ filesOf before) (lines : List Text) :
    inTurn (fun x => first x.file) each before (lines.map (⟨·, file⟩)) =
      (if lines = [] then [] else first file) ++ lines.flatMap fun line => each ⟨line, file⟩ := by
  cases lines with
  | nil => rfl
  | cons line rest =>
    have hmem : ∀ x ∈ rest.map fun line => Write.mk line file, x.file ∈ filesOf (before ++ [⟨line, file⟩]) := by
      intro x hx
      obtain ⟨_, _, rfl⟩ := List.mem_map.1 hx
      exact mem_filesOf.2 ⟨_, List.mem_append_right _ List.mem_cons_self, rfl⟩
    rw [List.map_cons, inTurn, if_neg hnew, inTurn_of_mem _ _ hmem, List.flatMap_map, if_neg (List.cons_ne_nil _ _),
      List.flatMap_cons, List.append_assoc]

/-- The lines of a product, which go to its file. -/
def groupOf (lines : Product → List Text) (p : Product) : List Write := (lines p).map (⟨·, p.file⟩)

section Groups

variable (lines : Product → List Text) {ps : List Product}

theorem mem_filesOf_groups {file : Text} :
    file ∈ filesOf (ps.flatMap (groupOf lines)) ↔ ∃ p ∈ ps, lines p ≠ [] ∧ p.file = file := by
  rw [mem_filesOf]
  constructor
  · rintro ⟨x, hx, rfl⟩
    obtain ⟨p, hp, hx⟩ := List.mem_flatMap.1 hx
    obtain ⟨line, hline, rfl⟩ := List.mem_map.1 hx
    exact ⟨p, hp, List.ne_nil_of_mem hline, rfl⟩
  · rintro ⟨p, hp, hne, rfl⟩
    obtain ⟨line, hline⟩ := List.exists_mem_of_ne_nil _ hne
    exact ⟨⟨line, p.file⟩, List.mem_flatMap.2 ⟨p, hp, List.mem_map_of_mem hline⟩, rfl⟩

theorem file_injective : Function.Injective Product.file := by
  intro p q h
  cases p <;> cases q <;> first | rfl | exact absurd h (by decide)

theorem isComponent_file (p : Product) : Path.IsComponent p.file := by
  cases p <;> decide

/-- The heading of a product's file can be printed if the path of the folder can. -/
theorem takes_heading_file {w : Writer} {capacity : Capacity} (h : capacity.Takes w.folder) (p : Product) :
    capacity.Takes (w.heading p.file) := by
  have hplain : ∀ s : String, capacity.Takes s := fun s => Capacity.takes_of_plain (Text.plain_ofString s)
  have hfile : capacity.Takes p.file := by cases p <;> exact hplain _
  have hdashes : capacity.Takes dashes := Capacity.takes_of_plain (Text.plain_replicate 20 '-')
  have hpath : capacity.Takes (w.path p.file) := by
    unfold path Path.joined
    split_ifs
    · exact hfile
    · exact Capacity.takes_append.2 ⟨h, hfile⟩
    · exact Capacity.takes_append.2 ⟨Capacity.takes_append.2 ⟨h, hplain _⟩, hfile⟩
  simp only [heading, Capacity.takes_append, hplain, hdashes, hpath, and_self]

/-- If each product comes once, its lines stand behind what comes first for its file. -/
theorem inTurn_groups {α : Type} (first : Text → List α) (each : Write → List α) {before : List Write}
    (hnodup : ps.Nodup) (hnew : ∀ p ∈ ps, p.file ∉ filesOf before) :
    inTurn (fun x => first x.file) each before (ps.flatMap (groupOf lines)) = ps.flatMap fun p =>
      (if lines p = [] then [] else first p.file) ++ (lines p).flatMap fun line => each ⟨line, p.file⟩ := by
  induction ps generalizing before with
  | nil => rfl
  | cons p ps ih =>
    obtain ⟨hp, hps⟩ := List.forall_mem_cons.1 hnew
    obtain ⟨hnotin, hnodup⟩ := List.nodup_cons.1 hnodup
    have hrest : ∀ q ∈ ps, q.file ∉ filesOf (before ++ groupOf lines p) := by
      intro q hq hmem
      obtain ⟨x, hx, hfile⟩ := mem_filesOf.1 hmem
      rcases List.mem_append.1 hx with hx | hx
      · exact hps q hq (mem_filesOf.2 ⟨x, hx, hfile⟩)
      · obtain ⟨_, _, rfl⟩ := List.mem_map.1 hx
        cases file_injective hfile
        exact hnotin hq
    rw [List.flatMap_cons, inTurn_append, ih hnodup hrest, groupOf, inTurn_group first each hp, List.flatMap_cons]

/-- The text of a file is that of the product's lines. -/
theorem textOf_groups (hnodup : ps.Nodup) {p : Product} (hp : p ∈ ps) :
    textOf (ps.flatMap (groupOf lines)) p.file = Text.ofLines (lines p) := by
  have hgroup : ∀ q, (groupOf lines q).filter (·.file = p.file) = if q = p then groupOf lines p else [] := by
    intro q
    split
    · rename_i h
      cases h
      simp [groupOf]
    · rename_i h
      simp [groupOf, file_injective.ne h]
  have hall : (ps.flatMap (groupOf lines)).filter (·.file = p.file) = groupOf lines p := by
    induction ps with
    | nil => cases hp
    | cons q ps ih =>
      obtain ⟨hnotin, hnodup⟩ := List.nodup_cons.1 hnodup
      rw [List.flatMap_cons, List.filter_append, hgroup]
      rcases List.mem_cons.1 hp with rfl | hp
      · have hrest : (ps.flatMap (groupOf lines)).filter (·.file = p.file) = [] := by
          rw [List.filter_flatMap, List.flatMap_eq_nil_iff]
          intro q hq
          rw [hgroup, if_neg (ne_of_mem_of_not_mem hq hnotin)]
        rw [if_pos rfl, hrest, List.append_nil]
      · rw [if_neg (ne_of_mem_of_not_mem hp hnotin).symm, List.nil_append, ih hnodup hp]
  rw [textOf, hall, groupOf, List.flatMap_map]
  rfl

end Groups

/-- The steps in which writes are done. -/
def stepsFor {ε : Type} (ws : List Write) : List (Step ε) := ws.map fun x => .write x.line x.file

theorem writes_stepsFor {ε : Type} : ∀ ws : List Write, writes (stepsFor ws : List (Step ε)) = ws
  | [] => rfl
  | x :: ws => congrArg (x :: ·) (writes_stepsFor ws)

theorem raised?_stepsFor {ε : Type} : ∀ ws : List Write, raised? (stepsFor ws : List (Step ε)) = none
  | [] => rfl
  | _ :: ws => raised?_stepsFor ws

/-- The lines that are kept are for files that can be opened. -/
theorem openFault?_of_mem_kept {w : Writer} {tree : Tree} {ws : List Write} {x : Write} (hx : x ∈ w.kept tree ws) :
    w.openFault? tree x.file = none := by
  simpa using List.mem_takeWhile_imp hx

section Openable

variable {w : Writer} {tree : Tree} {ws : List Write} (h : ∀ x ∈ ws, w.openFault? tree x.file = none)

include h

/-- If all files can be opened, every line is kept. -/
theorem kept_eq_self : w.kept tree ws = ws :=
  List.takeWhile_eq_self_iff.2 fun x hx => Option.isNone_iff_eq_none.2 (h x hx)

theorem endingIn_eq_none {ε : Type} : w.endingIn tree (stepsFor ws : List (Step ε)) = none := by
  rw [endingIn, writes_stepsFor, raised?_stepsFor, List.findSome?_eq_none_iff.2 h]
  rfl

end Openable

end Output.Writer

/-! ## Products that are asked for -/

namespace Settings

/-- Whether a product is asked for, by its own word or by that for all. -/
def Asks (s : Settings) (p : Product) : Prop := p.word ∈ s.outputs ∨ Product.allWord ∈ s.outputs

/-- Whether there are several words, or that for all. -/
def AsksSeveral (s : Settings) : Prop := 1 < s.outputs.length ∨ Product.allWord ∈ s.outputs

instance (s : Settings) (p : Product) : Decidable (s.Asks p) := inferInstanceAs (Decidable (_ ∨ _))

instance (s : Settings) : Decidable s.AsksSeveral := inferInstanceAs (Decidable (_ ∨ _))

theorem selects_eq (s : Settings) (p : Product) : s.selects p = decide (s.Asks p) := by
  rw [Bool.eq_iff_iff, decide_eq_true_iff, Asks]
  simp [selects, selectsAll]

theorem selectsSeveral_eq (s : Settings) : s.selectsSeveral = decide s.AsksSeveral := by
  rw [Bool.eq_iff_iff, decide_eq_true_iff, AsksSeveral]
  simp [selectsSeveral, selectsAll]

/-- The products that are asked for, in the order in which they are written. -/
def asked (s : Settings) : List Product := Product.all.filter fun p => s.Asks p

theorem mem_asked {s : Settings} {p : Product} : p ∈ s.asked ↔ s.Asks p := by
  have hall : p ∈ Product.all := by cases p <;> decide
  simp [asked, hall]

theorem nodup_asked (s : Settings) : s.asked.Nodup := List.Nodup.filter _ (by decide)

end Settings

/-! ## The lines of products -/

namespace CommandLine

/-- Whether these are the lines of the products of a document and its description: a JSON text for each of them, and the
prototypes of all events. -/
structure ProductLines (raw contractName d indent : Value) (lines : Product → List Text) : Prop where
  description : ∃ text, (Json.toJson (.value d) indent).result = .ok text ∧ lines .description = [text]
  interface : ∃ i text, (readInterface raw contractName).result = .ok i ∧
    (Json.toJson (.value i.toValue) indent).result = .ok text ∧ lines .interface = [text]
  selectors : ∃ items s text, itemList? raw = some items ∧ Selectors.of (.list items) = .ok s ∧
    (Json.toJson (.value s.toValue) indent).result = .ok text ∧ lines .selectors = [text]
  events : ∃ items, itemList? raw = some items ∧
    List.Forall₂ (fun item line => prototype item = .ok line) (items.filter (ItemKind.of · = .event)) (lines .events) ∧
    (lines .events ≠ [] ↔ ∃ item ∈ items, ItemKind.of item = .event)

/-- The lines of all products: a text for each of the first three, and the prototypes of events. -/
def linesOfTexts (description interface selectors : Text) (prototypes : List Text) : Product → List Text
  | .description => [description]
  | .interface => [interface]
  | .selectors => [selectors]
  | .events => prototypes

section Lines

variable {raw contractName strict d indent : Value}

/-- A description comes with all other products if the inputs of events have texts for names. -/
theorem exists_productLines (hd : (convert raw contractName strict).result = .ok (.success d))
    (hs : Json.IsSpacing indent)
    (he : ∀ i, (readInterface raw contractName).result = .ok i → i.events.All fun e => e.inputs.Named) :
    ∃ lines, ProductLines raw contractName d indent lines := by
  obtain ⟨i, document, hi, _, rfl⟩ := exists_described hd
  obtain ⟨items, records, hl, hr, hof⟩ := readInterface_eq_ok.1 hi
  obtain ⟨layout, hlayout, _⟩ := hs.exists_layout
  obtain ⟨s, hselectors⟩ := returns_selectors hr
  have hnamed : ∀ e, .event e ∈ records → e.inputs.Named := by
    intro e hmem
    have hall := he i hi
    rw [hof, Interface.ofItems_eq] at hall
    exact Slots.all_records.1 hall e (List.mem_filterMap.2 ⟨_, hmem, rfl⟩)
  obtain ⟨prototypes, hprototypes⟩ := returns_eventPrototypes hr hnamed
  rw [eventPrototypes, itemsOfKind_list] at hprototypes
  have hevents := except_mapM_eq_ok.1 hprototypes
  refine ⟨linesOfTexts (Json.write layout document.toValue) (Json.write layout i.toValue)
    (Json.write layout s.toValue) prototypes, ?_⟩
  exact {
    description := ⟨_, Json.result_toJson _ hlayout, rfl⟩
    interface := ⟨i, _, hi, Json.result_toJson _ hlayout, rfl⟩
    selectors := ⟨items, s, _, hl, hselectors, Json.result_toJson _ hlayout, rfl⟩
    events := by
      refine ⟨items, hl, hevents, ?_⟩
      change prototypes ≠ [] ↔ _
      rw [← List.length_pos_iff, ← hevents.length_eq, List.length_pos_iff_exists_mem]
      simp }

variable {lines : Product → List Text} (h : ProductLines raw contractName d indent lines)

include h

/-- No line of a document without surrogates has any. -/
theorem ProductLines.plain (hs : Json.IsSpacing indent) (hp : raw.Plain) (p : Product) :
    ∀ line ∈ lines p, line.Plain := by
  obtain ⟨layout, hlayout, hb⟩ := hs.exists_layout
  have hjson : ∀ {v : Value} {text : Text}, (Json.toJson (.value v) indent).result = .ok text →
      ∀ line ∈ [text], line.Plain := by
    intro v text ht
    cases (Json.result_toJson v hlayout).symm.trans ht
    exact List.forall_mem_singleton.2 (Json.ascii_write hb v).plain
  cases p with
  | description =>
    obtain ⟨text, ht, hlines⟩ := h.description
    exact hlines ▸ hjson ht
  | interface =>
    obtain ⟨_, text, _, ht, hlines⟩ := h.interface
    exact hlines ▸ hjson ht
  | selectors =>
    obtain ⟨_, _, text, _, _, ht, hlines⟩ := h.selectors
    exact hlines ▸ hjson ht
  | events =>
    obtain ⟨items, hl, hevents, _⟩ := h.events
    intro line hline
    obtain ⟨item, hitem, hprototype⟩ := exists_of_forall₂ hevents line hline
    exact plain_prototype (plain_of_itemList? hp hl item (List.mem_of_mem_filter hitem)) hprototype

/-- The lines are those that a conversion of the document gives which keeps its interface. -/
theorem ProductLines.linesOf_eq {c : Conversion} (hraw : c.raw = raw) {i : Interface}
    (hi : (readInterface raw contractName).result = .ok i) (hparsed : c.parsed = some (.record i)) (p : Product) :
    (linesOf c d indent p).result = .ok (lines p) := by
  have hitems : ∀ {items}, itemList? raw = some items → c.items = .list items := by
    intro items hl
    rw [Conversion.items, hraw, hl]
    rfl
  cases p with
  | description =>
    obtain ⟨text, ht, hlines⟩ := h.description
    rw [hlines]
    exact Outcome.bind_pure_eq_ok ht
  | interface =>
    obtain ⟨i', text, hi', ht, hlines⟩ := h.interface
    cases hi.symm.trans hi'
    have hread : c.getParsed.1.result = .ok (.record i) := by rw [Conversion.getParsed, hparsed]; rfl
    rw [hlines]
    exact Outcome.bind_eq_ok.2 ⟨_, hread, Outcome.bind_pure_eq_ok ht⟩
  | selectors =>
    obtain ⟨items, s, text, hl, hs, ht, hlines⟩ := h.selectors
    have hselectors : c.selectors.result = .ok s := by
      rw [Conversion.selectors, hitems hl]
      exact Outcome.ofFault_eq_ok.2 hs
    rw [hlines]
    exact Outcome.bind_eq_ok.2 ⟨_, hselectors, Outcome.bind_pure_eq_ok ht⟩
  | events =>
    obtain ⟨items, hl, hevents, _⟩ := h.events
    refine Outcome.ofFault_eq_ok.2 ?_
    rw [hitems hl, eventPrototypes, itemsOfKind_list]
    exact except_mapM_eq_ok.2 hevents

end Lines

end CommandLine

end ContractApi
