import ContractApi.Json.Encodable
import ContractApi.Proofs.Outcome
import ContractApi.Proofs.Table
import ContractApi.Proofs.WrittenText
/-!
# Values are read back

A value is `Legible` if it holds no number, no two entries of an object have the same name, all names are texts, and no
text holds the halves of a surrogate pair in a row. In a layout of blanks it is read back as it was, if it is not nested
too deep for the reader (`readWithin_write`, `readBack_toJson`).

- Reading goes on behind what was written, whatever stands there (`readsBack`). Two units of fuel for every code
  point are enough, since every item but the last is followed by a comma.
-/

namespace ContractApi

namespace Value

mutual

/-- Whether JSON text in at most so many levels of lists and objects can be read as the value again. -/
def Legible : Nat → Value → Prop
  | _, .null | _, .bool _ => True
  | _, .int _ | _, .float _ => False
  | _, .text t => t.Unsplit
  | levels, .list items => 0 < levels ∧ ItemsLegible (levels - 1) items
  | levels, .object entries => 0 < levels ∧ (entries.map Prod.fst).Nodup ∧ EntriesLegible (levels - 1) entries

def ItemsLegible : Nat → List Value → Prop
  | _, [] => True
  | levels, v :: rest => Legible levels v ∧ ItemsLegible levels rest

def EntriesLegible : Nat → List (Key × Value) → Prop
  | _, [] => True
  | levels, (key, v) :: rest => (∃ t : Text, key = .text t ∧ t.Unsplit) ∧ Legible levels v ∧ EntriesLegible levels rest

end

theorem itemsLegible_iff {levels : Nat} {items : List Value} :
    ItemsLegible levels items ↔ ∀ v ∈ items, v.Legible levels := by
  induction items with
  | nil => simp [ItemsLegible]
  | cons v rest ih => simp [ItemsLegible, ih]

theorem entriesLegible_iff {levels : Nat} {entries : List (Key × Value)} : EntriesLegible levels entries ↔
    ∀ e ∈ entries, (∃ t : Text, e.1 = .text t ∧ t.Unsplit) ∧ e.2.Legible levels := by
  induction entries with
  | nil => simp [EntriesLegible]
  | cons e rest ih => simp [EntriesLegible, ih, and_assoc]

theorem legible_list {levels : Nat} {items : List Value} :
    (Value.list items).Legible (levels + 1) ↔ ∀ v ∈ items, v.Legible levels := by
  rw [Legible, Nat.add_sub_cancel, itemsLegible_iff]
  exact and_iff_right (Nat.succ_pos levels)

theorem legible_object {levels : Nat} {entries : List (Key × Value)} :
    (Value.object entries).Legible (levels + 1) ↔ (entries.map Prod.fst).Nodup ∧
      ∀ e ∈ entries, (∃ t : Text, e.1 = .text t ∧ t.Unsplit) ∧ e.2.Legible levels := by
  rw [Legible, Nat.add_sub_cancel, entriesLegible_iff]
  exact and_iff_right (Nat.succ_pos levels)

mutual

/-- With more levels, no less is legible. -/
theorem Legible.mono : ∀ {v : Value} {levels levels' : Nat}, v.Legible levels → levels ≤ levels' → v.Legible levels'
  | .null, _, _, _, _ | .bool _, _, _, _, _ => trivial
  | .int _, _, _, h, _ | .float _, _, _, h, _ => h.elim
  | .text _, _, _, h, _ => h
  | .list _, _, _, h, hle => ⟨Nat.lt_of_lt_of_le h.1 hle, itemsLegible_mono h.2 (Nat.sub_le_sub_right hle 1)⟩
  | .object _, _, _, h, hle =>
    ⟨Nat.lt_of_lt_of_le h.1 hle, h.2.1, entriesLegible_mono h.2.2 (Nat.sub_le_sub_right hle 1)⟩

theorem itemsLegible_mono : ∀ {items : List Value} {levels levels' : Nat}, ItemsLegible levels items →
    levels ≤ levels' → ItemsLegible levels' items
  | [], _, _, _, _ => trivial
  | _ :: _, _, _, h, hle => ⟨Legible.mono h.1 hle, itemsLegible_mono h.2 hle⟩

theorem entriesLegible_mono : ∀ {entries : List (Key × Value)} {levels levels' : Nat},
    EntriesLegible levels entries → levels ≤ levels' → EntriesLegible levels' entries
  | [], _, _, _, _ => trivial
  | _ :: _, _, _, h, hle => ⟨h.1, Legible.mono h.2.1 hle, entriesLegible_mono h.2.2 hle⟩

end

end Value

namespace Json

/-! ## White space -/

/-- Whether nothing but white space is added between the parts of a value. -/
def Layout.Blank : Layout → Prop
  | .text unit => ∀ c ∈ unit, isSpace c = true
  | _ => True

theorem skipSpace_append {blank : Text} (hb : ∀ c ∈ blank, isSpace c = true) {c : CodePoint}
    (hc : isSpace c = false) (t : Text) : skipSpace (blank ++ c :: t) = c :: t := by
  rw [skipSpace, List.dropWhile_append_of_pos hb, List.dropWhile_cons_of_neg (Bool.eq_false_iff.1 hc)]

theorem isSpace_lineBreak {layout : Layout} (h : layout.Blank) (depth : Nat) :
    ∀ c ∈ lineBreak depth layout, isSpace c = true := by
  have hn : isSpace (.ofChar '\n') = true := by decide
  cases layout with
  | oneLine => exact fun _ hc => absurd hc List.not_mem_nil
  | spaces count =>
    refine List.forall_mem_cons.2 ⟨hn, fun c hc => ?_⟩
    rw [List.eq_of_mem_replicate hc]
    decide
  | text unit =>
    refine List.forall_mem_cons.2 ⟨hn, fun c hc => ?_⟩
    obtain ⟨t, ht, hc⟩ := List.mem_flatten.1 hc
    rw [List.eq_of_mem_replicate ht] at hc
    exact h c hc

/-- Items are set apart by a comma and white space. -/
theorem itemSeparator_eq {layout : Layout} (h : layout.Blank) (depth : Nat) : ∃ blank : Text,
    itemSeparator depth layout = .ofChar ',' :: blank ∧ ∀ c ∈ blank, isSpace c = true := by
  cases layout with
  | oneLine => exact ⟨[.ofChar ' '], rfl, List.forall_mem_singleton.2 (by decide)⟩
  | spaces count => exact ⟨_, rfl, isSpace_lineBreak h depth⟩
  | text unit => exact ⟨_, rfl, isSpace_lineBreak h depth⟩

/-! ## Where values begin -/

/-- The code points with which written values begin. -/
def openers : Text := "ntf\"[\x7b"

theorem bracketed_eq (opening closing : CodePoint) (layout : Layout) (depth : Nat) (items : List Text) :
    ∃ t, bracketed opening closing layout depth items = opening :: t := by
  unfold bracketed
  split
  · exact ⟨_, rfl⟩
  · exact ⟨_, rfl⟩

theorem writeAt_opener {levels : Nat} {v : Value} (h : v.Legible levels) (layout : Layout) (depth : Nat) :
    ∃ c t, writeAt layout depth v = c :: t ∧ c ∈ openers := by
  cases v with
  | null => exact ⟨_, _, rfl, by decide⟩
  | bool b => cases b <;> exact ⟨_, _, rfl, by decide⟩
  | int n => exact h.elim
  | float x => exact h.elim
  | text t => exact ⟨_, _, rfl, by decide⟩
  | list items =>
    obtain ⟨t, ht⟩ := bracketed_eq (.ofChar '[') (.ofChar ']') layout depth (writeItems layout (depth + 1) items)
    exact ⟨_, t, ht, by decide⟩
  | object entries =>
    obtain ⟨t, ht⟩ :=
      bracketed_eq (.ofChar '\x7b') (.ofChar '\x7d') layout depth (writeEntries layout (depth + 1) entries)
    exact ⟨_, t, ht, by decide⟩

/-- A value begins neither with white space nor with a closing bracket or a byte order mark. -/
theorem opener_ne {c : CodePoint} (h : c ∈ openers) :
    isSpace c = false ∧ c ≠ .ofChar ']' ∧ c ≠ .ofChar '\uFEFF' := by
  have hall : openers.all (fun c => !isSpace c && c ≠ .ofChar ']' && c ≠ .ofChar '\uFEFF') = true := by decide
  have hc := List.all_eq_true.1 hall c h
  simpa [and_assoc] using hc

/-! ## Steps of reading -/

section Steps

variable {levels fuel : Nat} {text rest : Text} {v : Value}

theorem readItems_last (read : List Value) {behind : Text} (hv : readValue levels fuel text = .ok (v, behind))
    (hs : skipSpace behind = .ofChar ']' :: rest) :
    readItems levels (fuel + 1) read text = .ok (.list (v :: read).reverse, rest) := by
  rw [readItems, hv]
  simp only [bind, Except.bind, hs, if_true]
  rfl

theorem readItems_next (read : List Value) {behind : Text} (hv : readValue levels fuel text = .ok (v, behind))
    (hs : skipSpace behind = .ofChar ',' :: rest) :
    readItems levels (fuel + 1) read text = readItems levels fuel (v :: read) (skipSpace rest) := by
  have hc : CodePoint.ofChar ',' ≠ .ofChar ']' := by decide
  rw [readItems, hv]
  simp only [bind, Except.bind, hs, if_neg hc, if_true]

theorem readValue_list (hl : 0 < levels) {c : CodePoint} (hc : c ≠ .ofChar ']') (hs : skipSpace text = c :: rest) :
    readValue levels (fuel + 1) (.ofChar '[' :: text) = readItems (levels - 1) fuel [] (c :: rest) := by
  have hq : CodePoint.ofChar '[' ≠ .ofChar '"' := by decide
  rw [readValue, if_neg hq, if_pos rfl, if_neg (Nat.pos_iff_ne_zero.1 hl), hs]
  exact if_neg hc

theorem readValue_emptyList (hl : 0 < levels) :
    readValue levels (fuel + 1) (.ofChar '[' :: .ofChar ']' :: rest) = .ok (.list [], rest) := by
  have hq : CodePoint.ofChar '[' ≠ .ofChar '"' := by decide
  rw [readValue, if_neg hq, if_pos rfl, if_neg (Nat.pos_iff_ne_zero.1 hl)]
  rfl

theorem readValue_object (hl : 0 < levels) (hs : skipSpace text = .ofChar '"' :: rest) :
    readValue levels (fuel + 1) (.ofChar '\x7b' :: text) = readEntries (levels - 1) fuel [] (.ofChar '"' :: rest) := by
  have hq : CodePoint.ofChar '\x7b' ≠ .ofChar '"' := by decide
  have hb : CodePoint.ofChar '\x7b' ≠ .ofChar '[' := by decide
  rw [readValue, if_neg hq, if_neg hb, if_pos rfl, if_neg (Nat.pos_iff_ne_zero.1 hl), hs]
  rfl

theorem readValue_emptyObject (hl : 0 < levels) :
    readValue levels (fuel + 1) (.ofChar '\x7b' :: .ofChar '\x7d' :: rest) = .ok (.object [], rest) := by
  have hq : CodePoint.ofChar '\x7b' ≠ .ofChar '"' := by decide
  have hb : CodePoint.ofChar '\x7b' ≠ .ofChar '[' := by decide
  rw [readValue, if_neg hq, if_neg hb, if_pos rfl, if_neg (Nat.pos_iff_ne_zero.1 hl)]
  rfl

variable {name behind : Text} {text' behind' : Text}

theorem readEntries_last (read : List (Key × Value)) (hq : text.head? = some (.ofChar '"'))
    (hn : readText fuel text = .ok (name, behind)) (hc : skipSpace behind = .ofChar ':' :: text')
    (hv : readValue levels fuel (skipSpace text') = .ok (v, behind'))
    (hs : skipSpace behind' = .ofChar '\x7d' :: rest) :
    readEntries levels (fuel + 1) read text = .ok (.object (Table.insert (.text name) v read), rest) := by
  rw [readEntries]
  simp only [hq, ne_eq, not_true, if_false, bind, Except.bind, hn, hc, if_true, hv, hs]
  rfl

theorem readEntries_next (read : List (Key × Value)) (hq : text.head? = some (.ofChar '"'))
    (hn : readText fuel text = .ok (name, behind)) (hc : skipSpace behind = .ofChar ':' :: text')
    (hv : readValue levels fuel (skipSpace text') = .ok (v, behind')) (hs : skipSpace behind' = .ofChar ',' :: rest) :
    readEntries levels (fuel + 1) read text =
      readEntries levels fuel (Table.insert (.text name) v read) (skipSpace rest) := by
  have hne : CodePoint.ofChar ',' ≠ .ofChar '\x7d' := by decide
  rw [readEntries]
  simp only [hq, ne_eq, not_true, if_false, bind, Except.bind, hn, hc, if_true, hv, hs, if_neg hne]

end Steps

/-! ## Values -/

theorem joined_cons_cons (separator t u : Text) (ts : List Text) : Text.joined separator (t :: u :: ts) =
    t ++ (separator ++ Text.joined separator (u :: ts)) := by
  rw [Text.joined, List.intercalate_cons_cons, List.append_assoc]
  rfl

theorem joined_singleton (separator t : Text) : Text.joined separator [t] = t := List.intercalate_singleton

/-- Items begin as the first of them does. -/
theorem joined_eq (separator : Text) {t t' : Text} {c : CodePoint} (ht : t = c :: t') (ts : List Text) (rest : Text) :
    ∃ more, Text.joined separator (t :: ts) ++ rest = c :: more := by
  subst ht
  cases ts with
  | nil => exact ⟨_, by rw [joined_singleton]; rfl⟩
  | cons u ts => exact ⟨_, by rw [joined_cons_cons]; rfl⟩

/-- What stands between the brackets is the items and white space. -/
theorem bracketed_of_ne_nil (opening closing : CodePoint) (layout : Layout) (depth : Nat) {items : List Text}
    (h : items ≠ []) : bracketed opening closing layout depth items =
      [opening] ++ (lineBreak (depth + 1) layout ++ Text.joined (itemSeparator (depth + 1) layout) items ++
        lineBreak depth layout) ++ [closing] := by
  rw [bracketed, List.isEmpty_eq_false_iff.2 h]
  rfl

theorem bracketed_append (opening closing : CodePoint) (layout : Layout) (depth : Nat) {items : List Text}
    (h : items ≠ []) (rest : Text) : bracketed opening closing layout depth items ++ rest =
      opening :: (lineBreak (depth + 1) layout ++ (Text.joined (itemSeparator (depth + 1) layout) items ++
        (lineBreak depth layout ++ closing :: rest))) := by
  rw [bracketed_of_ne_nil _ _ _ _ h]
  simp

theorem length_bracketed (opening closing : CodePoint) (layout : Layout) (depth : Nat) {items : List Text}
    (h : items ≠ []) : (Text.joined (itemSeparator (depth + 1) layout) items).length + 2 ≤
      (bracketed opening closing layout depth items).length := by
  rw [bracketed, List.isEmpty_eq_false_iff.2 h]
  simp
  omega

/-- Behind the opening bracket, white space leads to the first item, and behind the last item to the closing bracket. -/
theorem bracketed_cons {layout : Layout} (hb : layout.Blank) (opening closing : CodePoint) (depth : Nat) {t t' : Text}
    {c : CodePoint} (ht : t = c :: t') (hc : isSpace c = false) (ts : List Text) (rest : Text) :
    ∃ blank : Text, (∀ c ∈ blank, isSpace c = true) ∧
      (Text.joined (.ofChar ',' :: blank) (t :: ts)).length + 2 ≤
        (bracketed opening closing layout depth (t :: ts)).length ∧
      ∃ inside more, bracketed opening closing layout depth (t :: ts) ++ rest = opening :: inside ∧
        skipSpace inside = c :: more ∧
        c :: more = Text.joined (.ofChar ',' :: blank) (t :: ts) ++ (lineBreak depth layout ++ closing :: rest) := by
  obtain ⟨blank, hs, hblank⟩ := itemSeparator_eq hb (depth + 1)
  obtain ⟨more, hmore⟩ := joined_eq (.ofChar ',' :: blank) ht ts (lineBreak depth layout ++ closing :: rest)
  have hlength := length_bracketed opening closing layout depth (List.cons_ne_nil t ts)
  rw [hs] at hlength
  refine ⟨blank, hblank, hlength, _, more, ?_, skipSpace_append (isSpace_lineBreak hb (depth + 1)) hc more, hmore.symm⟩
  rw [bracketed_append _ _ _ _ (List.cons_ne_nil t ts), hs, hmore]

theorem exists_fuel {levels : Nat} {v : Value} (h : v.Legible levels) {layout : Layout} {depth fuel : Nat}
    (hf : 2 * (writeAt layout depth v).length ≤ fuel) : ∃ n, fuel = n + 1 := by
  obtain ⟨c, t, hw, _⟩ := writeAt_opener h layout depth
  rw [hw, List.length_cons] at hf
  exact ⟨fuel - 1, by omega⟩

/-- Whether the value, as written at any depth, is read back whatever stands behind it, if it does not lie too deep. -/
def ReadsBack (layout : Layout) (levels : Nat) (v : Value) : Prop := ∀ (depth fuel : Nat) (rest : Text),
  2 * (writeAt layout depth v).length ≤ fuel → readValue levels fuel (writeAt layout depth v ++ rest) = .ok (v, rest)

/-- The text of the entry of an object. -/
def writeEntry (layout : Layout) (depth : Nat) (e : Key × Value) : Text :=
  writeKey e.1 ++ ": " ++ writeAt layout depth e.2

theorem writeEntry_eq (layout : Layout) (depth : Nat) {e : Key × Value} {name : Text} (h : e.1 = .text name) :
    writeEntry layout depth e = .ofChar '"' :: quotedRest name (": " ++ writeAt layout depth e.2) := by
  rw [writeEntry, h, writeKey, List.append_assoc, writeText_append]

theorem writeItems_eq (layout : Layout) (depth : Nat) (items : List Value) :
    writeItems layout depth items = items.map (writeAt layout depth) := by
  induction items with
  | nil => rfl
  | cons v items ih => rw [writeItems, ih, List.map_cons]

theorem writeEntries_eq (layout : Layout) (depth : Nat) (entries : List (Key × Value)) :
    writeEntries layout depth entries = entries.map (writeEntry layout depth) := by
  induction entries with
  | nil => rfl
  | cons e entries ih =>
    rw [writeEntries, ih, List.map_cons]
    rfl

section Values

variable {layout : Layout} {levels : Nat} {blank blank' : Text} (hb : ∀ c ∈ blank, isSpace c = true)
  (hb' : ∀ c ∈ blank', isSpace c = true) (depth : Nat) (rest : Text)

include hb hb'

/-- Items are read back, onto those that were read before. -/
theorem readItems_joined : ∀ {items : List Value} (fuel : Nat) (read : List Value), items ≠ [] →
    (∀ v ∈ items, v.Legible levels ∧ ReadsBack layout levels v) →
      2 * (Text.joined (.ofChar ',' :: blank) (items.map (writeAt layout depth))).length < fuel →
        readItems levels fuel read (Text.joined (.ofChar ',' :: blank) (items.map (writeAt layout depth)) ++
          (blank' ++ .ofChar ']' :: rest)) = .ok (.list (read.reverse ++ items), rest)
  | [], _, _, hne, _, _ => absurd rfl hne
  | _ :: _, 0, _, _, _, hf => absurd hf (Nat.not_lt_zero _)
  | [v], fuel + 1, read, _, h, hf => by
    rw [List.map_singleton, joined_singleton] at hf ⊢
    have hv := (h v List.mem_cons_self).2 depth fuel (blank' ++ .ofChar ']' :: rest) (by omega)
    rw [readItems_last read hv (skipSpace_append hb' (by decide) rest), List.reverse_cons]
  | v :: w :: items, fuel + 1, read, _, h, hf => by
    obtain ⟨⟨_, hv⟩, hrest⟩ := List.forall_mem_cons.1 h
    obtain ⟨c, t, hw, hc⟩ := writeAt_opener (hrest w List.mem_cons_self).1 layout depth
    have ih := readItems_joined fuel (v :: read) (List.cons_ne_nil w items) hrest
    simp only [List.map_cons, joined_cons_cons, List.append_assoc, List.cons_append, List.length_append,
      List.length_cons] at ih hf ⊢
    -- behind the comma, white space is skipped up to the next item
    obtain ⟨more, hmore⟩ := joined_eq (.ofChar ',' :: blank) hw (items.map (writeAt layout depth))
      (blank' ++ .ofChar ']' :: rest)
    rw [hmore] at ih ⊢
    rw [readItems_next read (hv depth fuel _ (by omega)) rfl, skipSpace_append hb (opener_ne hc).1, ih (by omega),
      List.reverse_cons, List.append_assoc]
    rfl

omit hb hb' in
/-- The parts of an entry are read one after the other, whatever stands behind it. -/
theorem readEntry {name : Text} (hn : name.Unsplit) {v : Value} (hl : v.Legible levels)
    (hv : ReadsBack layout levels v) {fuel : Nat} (hf : 2 * (writeEntry layout depth (.text name, v)).length ≤ fuel) :
    let text := writeEntry layout depth (.text name, v) ++ rest
    let value := .ofChar ' ' :: (writeAt layout depth v ++ rest)
    text.head? = some (.ofChar '"') ∧ readText fuel text = .ok (name, .ofChar ':' :: value) ∧
      readValue levels fuel (skipSpace value) = .ok (v, rest) := by
  intro text value
  obtain ⟨c, t, hw, hc⟩ := writeAt_opener hl layout depth
  have htext : text = writeText name ++ .ofChar ':' :: value := by
    simp only [text, value, writeEntry, writeKey, List.append_assoc]
    rfl
  have hlength := length_lt_writeText name
  have hsplit : (writeEntry layout depth (.text name, v)).length =
      (writeText name).length + 2 + (writeAt layout depth v).length := by
    simp only [writeEntry, writeKey, List.length_append]
    rfl
  have hskip : skipSpace value = writeAt layout depth v ++ rest := by
    rw [show value = [.ofChar ' '] ++ (writeAt layout depth v ++ rest) from rfl, hw, List.cons_append]
    exact skipSpace_append (List.forall_mem_singleton.2 (by decide)) (opener_ne hc).1 _
  refine ⟨?_, ?_, ?_⟩
  · rw [htext, writeText_append]
    rfl
  · rw [htext]
    exact readText_writeText hn (by omega) _
  · rw [hskip]
    exact hv depth fuel rest (by omega)

/-- Entries are read back, onto those that were read before, if they all have different names. -/
theorem readEntries_joined : ∀ {entries : List (Key × Value)} (fuel : Nat) (read : List (Key × Value)),
    entries ≠ [] → ((read ++ entries).map Prod.fst).Nodup →
      (∀ e ∈ entries, (∃ t : Text, e.1 = .text t ∧ t.Unsplit) ∧ e.2.Legible levels ∧ ReadsBack layout levels e.2) →
        2 * (Text.joined (.ofChar ',' :: blank) (entries.map (writeEntry layout depth))).length < fuel →
          readEntries levels fuel read (Text.joined (.ofChar ',' :: blank) (entries.map (writeEntry layout depth)) ++
            (blank' ++ .ofChar '\x7d' :: rest)) = .ok (.object (read ++ entries), rest)
  | [], _, _, hne, _, _, _ => absurd rfl hne
  | _ :: _, 0, _, _, _, _, hf => absurd hf (Nat.not_lt_zero _)
  | (key, v) :: entries, fuel + 1, read, _, hn, h, hf => by
    obtain ⟨⟨⟨name, hkey, hname⟩, hl, hv⟩, hrest⟩ := List.forall_mem_cons.1 h
    subst hkey
    have hnew : Key.text name ∉ Table.keys read := by
      rw [List.map_append, List.nodup_append] at hn
      exact fun hmem => hn.2.2 _ hmem _ List.mem_cons_self rfl
    have hinsert := Table.insert_of_notMem v hnew
    cases entries with
    | nil =>
      rw [List.map_singleton, joined_singleton] at hf ⊢
      obtain ⟨hq, ht, hvalue⟩ :=
        readEntry depth (blank' ++ .ofChar '\x7d' :: rest) hname hl hv (Nat.le_of_lt_succ hf)
      rw [readEntries_last read hq ht rfl hvalue (skipSpace_append hb' (by decide) rest), hinsert]
    | cons e entries =>
      obtain ⟨⟨name', hkey', _⟩, _⟩ := hrest e List.mem_cons_self
      have hw := writeEntry_eq layout depth hkey'
      have ih := readEntries_joined fuel (read ++ [(.text name, v)]) (List.cons_ne_nil e entries)
        (by rwa [List.append_cons] at hn) hrest
      simp only [List.map_cons, joined_cons_cons, List.append_assoc, List.cons_append, List.nil_append,
        List.length_append, List.length_cons] at ih hf ⊢
      -- behind the comma, white space is skipped up to the quote of the next name
      obtain ⟨more, hmore⟩ := joined_eq (.ofChar ',' :: blank) hw (entries.map (writeEntry layout depth))
        (blank' ++ .ofChar '\x7d' :: rest)
      rw [hmore] at ih ⊢
      have hfuel : 2 * (writeEntry layout depth (.text name, v)).length ≤ fuel := by omega
      obtain ⟨hq, ht, hvalue⟩ := readEntry depth (.ofChar ',' :: (blank ++ .ofChar '"' :: more)) hname hl hv hfuel
      rw [readEntries_next read hq ht rfl hvalue rfl, hinsert, skipSpace_append hb (by decide), ih (by omega)]

end Values

mutual

/-- A legible value is read back. -/
theorem readsBack {layout : Layout} (hb : layout.Blank) : ∀ (v : Value) {levels : Nat}, v.Legible levels →
    ReadsBack layout levels v
  | .null, _, h, _, _, _, hf => by
    obtain ⟨fuel, rfl⟩ := exists_fuel h hf
    rfl
  | .bool b, _, h, _, _, _, hf => by
    obtain ⟨fuel, rfl⟩ := exists_fuel h hf
    cases b <;> rfl
  | .int _, _, h, _, _, _, _ | .float _, _, h, _, _, _, _ => h.elim
  | .text t, _, h, _, _, rest, hf => by
    obtain ⟨fuel, rfl⟩ := exists_fuel h hf
    have hlength := length_lt_writeText t
    rw [writeAt] at hf ⊢
    have ht := readText_writeText h (show t.length < fuel by omega) rest
    rw [writeText_append] at ht ⊢
    rw [readValue, if_pos rfl, ht]
    rfl
  | .list [], _, h, _, _, _, hf => by
    obtain ⟨fuel, rfl⟩ := exists_fuel h hf
    exact readValue_emptyList h.1
  | .list (v :: items), levels, h, depth, _, rest, hf => by
    obtain ⟨fuel, rfl⟩ := exists_fuel h hf
    obtain ⟨c, t, hw, hc⟩ := writeAt_opener h.2.1 layout (depth + 1)
    obtain ⟨blank, hblank, hlength, inside, more, hinside, hskip, hmore⟩ := bracketed_cons hb (.ofChar '[')
      (.ofChar ']') depth hw (opener_ne hc).1 (items.map (writeAt layout (depth + 1))) rest
    rw [writeAt, writeItems_eq, List.map_cons] at hf ⊢
    have hread := readItems_joined hblank (isSpace_lineBreak hb depth) (depth + 1) rest fuel []
      (List.cons_ne_nil v items) (items_readsBack hb (v :: items) h.2) (by rw [List.map_cons]; omega)
    rw [List.map_cons, ← hmore] at hread
    rw [hinside, readValue_list h.1 (opener_ne hc).2.1 hskip, hread]
    rfl
  | .object [], _, h, _, _, _, hf => by
    obtain ⟨fuel, rfl⟩ := exists_fuel h hf
    exact readValue_emptyObject h.1
  | .object (e :: entries), levels, h, depth, _, rest, hf => by
    obtain ⟨fuel, rfl⟩ := exists_fuel h hf
    have hentries := entries_readsBack hb (e :: entries) h.2.2
    obtain ⟨⟨name, hkey, _⟩, _⟩ := hentries e List.mem_cons_self
    have hw := writeEntry_eq layout (depth + 1) hkey
    obtain ⟨blank, hblank, hlength, inside, more, hinside, hskip, hmore⟩ := bracketed_cons hb (.ofChar '\x7b')
      (.ofChar '\x7d') depth hw (by decide) (entries.map (writeEntry layout (depth + 1))) rest
    rw [writeAt, writeEntries_eq, List.map_cons] at hf ⊢
    have hread := readEntries_joined hblank (isSpace_lineBreak hb depth) (depth + 1) rest fuel []
      (List.cons_ne_nil e entries) h.2.1 hentries (by rw [List.map_cons]; omega)
    rw [List.map_cons, ← hmore] at hread
    rw [hinside, readValue_object h.1 hskip, hread]
    rfl

theorem items_readsBack {layout : Layout} (hb : layout.Blank) : ∀ (items : List Value) {levels : Nat},
    Value.ItemsLegible levels items → ∀ v ∈ items, v.Legible levels ∧ ReadsBack layout levels v
  | [], _, _ => fun _ h => absurd h List.not_mem_nil
  | v :: rest, _, h => List.forall_mem_cons.2 ⟨⟨h.1, readsBack hb v h.1⟩, items_readsBack hb rest h.2⟩

theorem entries_readsBack {layout : Layout} (hb : layout.Blank) : ∀ (entries : List (Key × Value)) {levels : Nat},
    Value.EntriesLegible levels entries → ∀ e ∈ entries,
      (∃ t : Text, e.1 = .text t ∧ t.Unsplit) ∧ e.2.Legible levels ∧ ReadsBack layout levels e.2
  | [], _, _ => fun _ h => absurd h List.not_mem_nil
  | (_, v) :: rest, _, h =>
    List.forall_mem_cons.2 ⟨⟨h.1, h.2.1, readsBack hb v h.2.1⟩, entries_readsBack hb rest h.2.2⟩

end

/-! ## Whole texts -/

/-- A legible value is read back from its own text. -/
theorem readWithin_write {levels : Nat} {v : Value} (h : v.Legible levels) {layout : Layout} (hb : layout.Blank) :
    readWithin levels (write layout v) = .ok v := by
  obtain ⟨c, t, hw, hc⟩ := writeAt_opener h layout 0
  have hback := readsBack hb v h 0 (2 * (write layout v).length + 2) [] (Nat.le_add_right _ 2)
  have hskip : skipSpace (write layout v) = write layout v := by
    rw [write, hw]
    exact skipSpace_append (fun _ hb => absurd hb List.not_mem_nil) (opener_ne hc).1 t
  have hbom : (write layout v).head? ≠ some (.ofChar '\uFEFF') := by
    rw [write, hw]
    exact fun h => (opener_ne hc).2.2 (Option.some.inj h)
  rw [List.append_nil] at hback
  rw [readWithin, if_neg hbom, hskip]
  simp only [write] at hback ⊢
  rw [hback]
  rfl

/-- Whether the value asks for a layout that there is, of one line or of so many spaces: null or an integer that 64 bits
hold. -/
def IsSpacing (indent : Value) : Prop :=
  indent = .null ∨ ∃ n, indent = .int n ∧ -0x8000000000000000 ≤ n ∧ n < 0x8000000000000000

/-- For an integer there is a layout exactly if 64 bits hold it. -/
theorem isSpacing_int {n : Int} : IsSpacing (.int n) ↔ ∃ layout, layoutOf (.int n) = .ok layout := by
  rw [layoutOf, layoutOfInt]
  constructor
  · rintro (h | ⟨m, hm, hl, hu⟩)
    · cases h
    · cases hm
      rw [if_neg (by omega)]
      exact ⟨_, rfl⟩
  · rintro ⟨layout, h⟩
    split_ifs at h with hrange
    exact .inr ⟨n, rfl, by omega, by omega⟩

/-- What is no text asks for a layout of blanks. -/
theorem blank_of_layoutOf {indent : Value} (h : indent.kind ≠ .text) {layout : Layout}
    (hl : layoutOf indent = .ok layout) : layout.Blank := by
  unfold layoutOf layoutOfInt at hl
  split at hl
  · cases hl
    trivial
  · cases hl
    trivial
  · split at hl
    · cases hl
    · cases hl
      trivial
  · exact absurd rfl h
  · cases hl

theorem IsSpacing.exists_layout {indent : Value} (h : IsSpacing indent) :
    ∃ layout, layoutOf indent = .ok layout ∧ layout.Blank := by
  obtain rfl | ⟨n, rfl, _⟩ := id h
  · exact ⟨.oneLine, rfl, trivial⟩
  · obtain ⟨layout, hl⟩ := isSpacing_int.1 h
    exact ⟨layout, hl, blank_of_layoutOf (fun h => by cases h) hl⟩

theorem result_toJson (v : Value) {indent : Value} {layout : Layout} (h : layoutOf indent = .ok layout) :
    (toJson (.value v) indent).result = .ok (write layout v) := by
  cases v <;> first | rfl | exact (congrArg Outcome.result (Outcome.ofFault_bind h)).trans rfl

/-- In a layout of spaces, a legible value has a text, from which it is read back wherever there is room for it. -/
theorem readBack_toJson {levels : Nat} {v : Value} (h : v.Legible levels) {indent : Value} (hi : IsSpacing indent) :
    ∃ text, (toJson (.value v) indent).result = .ok text ∧ ∀ more, levels ≤ more → readWithin more text = .ok v := by
  obtain ⟨layout, hl, hb⟩ := hi.exists_layout
  exact ⟨write layout v, result_toJson v hl, fun more hmore => readWithin_write (h.mono hmore) hb⟩

end Json

end ContractApi
