import ContractApi.Table
import Mathlib.Data.List.Induction
import Mathlib.Data.List.Nodup
/-!
# Tables: keys keep their first place, values are the last written

- Reading after writing (`get?_insert`), and the keys after writing (`keys_insert`).
- A table filled entry by entry has its keys in the order of first occurrence (`firsts`, `keys_foldl_insert`), each once
  (`nodup_firsts`) and with the value of the last entry for it (`get?_ofList`).
- The same for a table of tables (`keys_ofNested`, `get?_ofNested`): every outer key holds the table that the entries
  below it fill, and entries with different keys are all there (`perm_entries_ofNested`).
-/

namespace ContractApi.Table

variable {κ μ α β : Type} [DecidableEq κ] [DecidableEq μ]

/-! ## One write -/

/-- A write changes what is found under its own key and nothing else. -/
theorem get?_insert (k k' : κ) (v : α) (t : Table κ α) :
    get? k' (insert k v t) = if k = k' then some v else get? k' t := by
  induction t with
  | nil => simp [insert, get?]
  | cons entry rest ih =>
    obtain ⟨key, value⟩ := entry
    by_cases h : key = k
    · subst h
      by_cases h' : key = k' <;> simp [insert, get?, h']
    · by_cases h' : key = k'
      · subst h'
        simp [insert, get?, h, Ne.symm h]
      · simp [insert, get?, h, h', ih]

/-- A new key goes to the end; a key that is present stays where it is. -/
theorem keys_insert (k : κ) (v : α) (t : Table κ α) :
    keys (insert k v t) = if k ∈ keys t then keys t else keys t ++ [k] := by
  induction t with
  | nil => rfl
  | cons entry rest ih =>
    obtain ⟨key, value⟩ := entry
    by_cases h : key = k
    · subst h
      simp [insert, keys]
    · by_cases h' : k ∈ keys rest
      · rw [if_pos h'] at ih
        simp only [insert, if_neg h, keys, List.map_cons] at ih ⊢
        simp only [keys] at h'
        simp [ih, h']
      · rw [if_neg h'] at ih
        simp only [insert, if_neg h, keys, List.map_cons] at ih ⊢
        simp only [keys] at h'
        simp [ih, h', Ne.symm h]

theorem mem_insert {k : κ} {v : α} {t : Table κ α} {e : κ × α} (h : e ∈ insert k v t) : e = (k, v) ∨ e ∈ t := by
  induction t with
  | nil => exact .inl (List.mem_singleton.1 h)
  | cons entry rest ih =>
    obtain ⟨key, value⟩ := entry
    rw [insert] at h
    split at h
    · rename_i hk
      subst hk
      exact (List.mem_cons.1 h).imp_right (List.mem_cons_of_mem _)
    · rcases List.mem_cons.1 h with rfl | h
      · exact .inr List.mem_cons_self
      · exact (ih h).imp_right (List.mem_cons_of_mem _)

theorem nodup_keys_insert (k : κ) (v : α) {t : Table κ α} (h : (keys t).Nodup) : (keys (insert k v t)).Nodup := by
  rw [keys_insert]
  split
  · exact h
  · rename_i hk
    exact List.nodup_append.2 ⟨h, List.nodup_singleton k, fun a ha b hb hab => hk (by rwa [← List.mem_singleton.1 hb, ← hab])⟩

/-- A new entry goes to the end. -/
theorem insert_of_notMem {k : κ} (v : α) {t : Table κ α} (h : k ∉ keys t) : insert k v t = t ++ [(k, v)] := by
  induction t with
  | nil => rfl
  | cons entry rest ih =>
    obtain ⟨key, value⟩ := entry
    obtain ⟨hk, hrest⟩ := not_or.1 (mt List.mem_cons.2 h)
    rw [insert, if_neg (Ne.symm hk), ih hrest, List.cons_append]

/-! ## Looking up -/

/-- A key is found exactly if it is among the keys. -/
theorem isSome_get? (k : κ) (t : Table κ α) : (get? k t).isSome = true ↔ k ∈ keys t := by
  induction t with
  | nil => simp [get?, keys]
  | cons entry rest ih =>
    obtain ⟨key, value⟩ := entry
    by_cases h : key = k
    · subst h
      simp [get?, keys]
    · simp only [get?, if_neg h, ih, keys, List.map_cons, List.mem_cons, Ne.symm h, false_or]

theorem mem_keys_insert (k k' : κ) (v : α) (t : Table κ α) : k' ∈ keys (insert k v t) ↔ k' = k ∨ k' ∈ keys t := by
  rw [← isSome_get?, ← isSome_get?, get?_insert]
  by_cases h : k = k'
  · simp [h]
  · simp [h, Ne.symm h]

theorem contains_iff (k : κ) (t : Table κ α) : contains k t = true ↔ k ∈ keys t := isSome_get? k t

theorem mem_of_get? {k : κ} {v : α} {t : Table κ α} (h : get? k t = some v) : (k, v) ∈ t := by
  induction t with
  | nil => cases h
  | cons entry rest ih =>
    obtain ⟨key, value⟩ := entry
    by_cases hk : key = k
    · simp only [get?, if_pos hk, Option.some.injEq] at h
      subst hk h
      exact List.mem_cons_self
    · rw [get?, if_neg hk] at h
      exact List.mem_cons_of_mem _ (ih h)

/-- If no key occurs twice, every entry is found under its key. -/
theorem get?_of_mem {k : κ} {v : α} {t : Table κ α} (hn : (keys t).Nodup) (h : (k, v) ∈ t) : get? k t = some v := by
  induction t with
  | nil => cases h
  | cons entry rest ih =>
    obtain ⟨key, value⟩ := entry
    obtain ⟨hk, hn⟩ := List.nodup_cons.1 hn
    rcases List.mem_cons.1 h with h | h
    · cases h
      simp [get?]
    · have hne : key ≠ k := by
        rintro rfl
        exact hk (List.mem_map.2 ⟨(key, v), h, rfl⟩)
      rw [get?, if_neg hne]
      exact ih hn h

/-- Looking up in a table whose keys and values were mapped, if the keys stay apart. -/
theorem get?_map (g : κ → μ) (f : α → β) (hg : ∀ a b, g a = g b → a = b) (k : κ) (t : Table κ α) :
    get? (g k) (t.map fun e => (g e.1, f e.2)) = (get? k t).map f := by
  induction t with
  | nil => rfl
  | cons entry rest ih =>
    obtain ⟨key, value⟩ := entry
    by_cases h : key = k
    · subst h
      simp [get?]
    · have h' : g key ≠ g k := fun e => h (hg _ _ e)
      simp [get?, h, h', ih]

/-- A table is made up of its keys and of what is found under them. -/
theorem mapM_get? {ι : Type} {key : ι → κ} {value : ι → Option α} : ∀ {is : List ι} {t : Table κ α},
    keys t = is.map key → (keys t).Nodup → (∀ i ∈ is, value i = get? (key i) t) →
      is.mapM (fun i => do return (key i, ← value i)) = some t
  | [], t, hk, _, _ => by
    rw [List.map_nil, keys, List.map_eq_nil_iff] at hk
    rw [hk]
    rfl
  | i :: is, [], hk, _, _ => by cases hk
  | i :: is, (k, v) :: t, hk, hn, hv => by
    obtain ⟨rfl, hrest⟩ : k = key i ∧ keys t = is.map key := List.cons.inj hk
    obtain ⟨hnew, hn⟩ : key i ∉ keys t ∧ (keys t).Nodup := List.nodup_cons.1 hn
    have hi : value i = some v := by
      rw [hv i List.mem_cons_self, get?, if_pos rfl]
    have ih : is.mapM (fun i => do return (key i, ← value i)) = some t := by
      refine mapM_get? hrest hn fun j hj => ?_
      have hne : key i ≠ key j := by
        intro h
        rw [hrest] at hnew
        exact hnew (List.mem_map.2 ⟨j, hj, h.symm⟩)
      rw [hv j (List.mem_cons_of_mem _ hj), get?, if_neg hne]
    rw [List.mapM_cons, ih, hi]
    rfl

/-! ## The last element with a property -/

section Last

variable {p q : α → Bool} {l : List α}

theorem findRev?_eq (p : α → Bool) (l : List α) : l.findRev? p = l.reverse.find? p := by
  rw [List.findRev?_eq_findRev?TR, List.findRev?TR]

/-- The last element with a property, after an element was added at the end. -/
theorem findRev?_concat (p : α → Bool) (l : List α) (a : α) :
    (l ++ [a]).findRev? p = if p a then some a else l.findRev? p := by
  rw [findRev?_eq, findRev?_eq, List.reverse_concat, List.find?_cons]
  cases p a <;> rfl

theorem findRev?_append (p : α → Bool) (l l' : List α) :
    (l ++ l').findRev? p = (l'.findRev? p).or (l.findRev? p) := by
  simp only [findRev?_eq, List.reverse_append, List.find?_append]

theorem findRev?_map (f : β → α) (l : List β) : (l.map f).findRev? p = (l.findRev? (p ∘ f)).map f := by
  simp only [findRev?_eq, ← List.map_reverse, List.find?_map]

theorem findRev?_eq_none : l.findRev? p = none ↔ ∀ a ∈ l, ¬p a := by
  simp

theorem mem_of_findRev? {a : α} (h : l.findRev? p = some a) : a ∈ l := by
  rw [findRev?_eq] at h
  exact List.mem_reverse.1 (List.mem_of_find?_eq_some h)

theorem findRev?_some {a : α} (h : l.findRev? p = some a) : p a = true := by
  rw [findRev?_eq] at h
  exact List.find?_some h

theorem exists_findRev? {a : α} (ha : a ∈ l) (hp : p a = true) : ∃ b, l.findRev? p = some b := by
  rw [← Option.isSome_iff_exists, ← Option.not_isNone, Bool.not_eq_true', ← Bool.not_eq_true,
    Option.isNone_iff_eq_none, findRev?_eq_none]
  exact fun h => h a ha hp

/-- The last element with a property, by what lies behind it. -/
theorem findRev?_eq_some {a : α} : l.findRev? p = some a ↔
    p a = true ∧ ∃ before after, l = before ++ a :: after ∧ ∀ b ∈ after, p b = false := by
  rw [findRev?_eq, List.find?_eq_some_iff_append]
  refine and_congr_right fun _ => ⟨?_, ?_⟩
  · rintro ⟨after, before, heq, hnone⟩
    refine ⟨before.reverse, after.reverse, ?_, fun b hb => ?_⟩
    · rw [← List.reverse_reverse l, heq, List.reverse_append, List.reverse_cons, List.append_assoc,
        List.singleton_append]
    · simpa using hnone b (List.mem_reverse.1 hb)
  · rintro ⟨before, after, rfl, hnone⟩
    refine ⟨after.reverse, before.reverse, ?_, fun b hb => ?_⟩
    · rw [List.reverse_append, List.reverse_cons, List.append_assoc, List.singleton_append]
    · simpa using hnone b (List.mem_reverse.1 hb)

/-- The only element with a property is the last one. -/
theorem findRev?_of_unique {a : α} (ha : a ∈ l) (hp : p a = true) (hu : ∀ b ∈ l, p b = true → b = a) :
    l.findRev? p = some a := by
  obtain ⟨b, hb⟩ := exists_findRev? ha hp
  rw [hb, hu b (mem_of_findRev? hb) (findRev?_some hb)]

/-- What follows the search may be computed by whatever agrees on the elements searched. -/
theorem bind_findRev? {f : α → Option β} {g : α → β} (h : ∀ a ∈ l, p a = true → f a = some (g a)) :
    (l.findRev? p).bind f = (l.findRev? p).map g := by
  cases hl : l.findRev? p with
  | none => rfl
  | some a => exact h a (mem_of_findRev? hl) (findRev?_some hl)

/-- Searching what elements contribute, if each contributes at most one thing that is sought. -/
theorem findRev?_flatMap {f : α → List β} {g : α → β} {r : β → Bool}
    (h : ∀ a, (f a).findRev? r = if p a then some (g a) else none) :
    (l.flatMap f).findRev? r = (l.findRev? p).map g := by
  induction l using List.reverseRecOn with
  | nil => rfl
  | append_singleton l a ih =>
    rw [List.flatMap_append, findRev?_append, List.flatMap_singleton, h, ih, findRev?_concat]
    cases p a <;> rfl

end Last

/-! ## Filling a table -/

theorem ofList_concat (es : List (κ × α)) (e : κ × α) : ofList (es ++ [e]) = insert e.1 e.2 (ofList es) := by
  simp [ofList, List.foldl_append]

/-- The elements of a list, once each, in the order of their first occurrence. -/
def firsts (l : List κ) : List κ := l.eraseDups

theorem mem_firsts {a : κ} {l : List κ} : a ∈ firsts l ↔ a ∈ l := List.mem_eraseDups

/-- The first occurrences, after an element was added at the end. -/
theorem firsts_concat (l : List κ) (a : κ) :
    firsts (l ++ [a]) = if a ∈ l then firsts l else firsts l ++ [a] := by
  rw [firsts, firsts, List.eraseDups_append]
  by_cases h : a ∈ l <;> simp [List.removeAll, List.eraseDups_cons, h]

theorem nodup_firsts (l : List κ) : (firsts l).Nodup := by
  induction l using List.reverseRecOn with
  | nil => exact List.nodup_nil
  | append_singleton l a ih =>
    rw [firsts_concat]
    by_cases ha : a ∈ l
    · rw [if_pos ha]
      exact ih
    · rw [if_neg ha]
      have hd : (firsts l).Disjoint [a] := List.disjoint_singleton.2 fun h => ha (mem_firsts.1 h)
      exact ih.append (List.nodup_singleton a) hd

/-- The first occurrences, if the elements were replaced and stayed apart. -/
theorem firsts_map {g : κ → μ} (hg : ∀ a b, g a = g b → a = b) (l : List κ) :
    firsts (l.map g) = (firsts l).map g := by
  induction l using List.reverseRecOn with
  | nil => rfl
  | append_singleton l a ih =>
    have hm : g a ∈ l.map g ↔ a ∈ l := by
      rw [List.mem_map]
      exact ⟨fun ⟨b, hb, h⟩ => hg _ _ h ▸ hb, fun h => ⟨a, h, rfl⟩⟩
    rw [List.map_append, List.map_singleton, firsts_concat, firsts_concat, ih]
    by_cases h : a ∈ l
    · rw [if_pos h, if_pos (hm.2 h)]
    · rw [if_neg h, if_neg fun h' => h (hm.1 h'), List.map_append, List.map_singleton]

/-- However the values are made, the keys of a table that is filled stand in the order of their first occurrence. -/
theorem keys_foldl_insert {ι : Type} (key : ι → κ) (value : Table κ α → ι → α) (is : List ι) :
    keys (is.foldl (fun t i => insert (key i) (value t i) t) []) = firsts (is.map key) := by
  induction is using List.reverseRecOn with
  | nil => rfl
  | append_singleton is i ih =>
    rw [List.foldl_append, List.foldl_cons, List.foldl_nil, keys_insert, ih, List.map_append, List.map_singleton,
      firsts_concat]
    simp only [mem_firsts]

theorem keys_ofList (es : List (κ × α)) : keys (ofList es) = firsts (es.map (·.1)) :=
  keys_foldl_insert Prod.fst (fun _ e => e.2) es

theorem mem_keys_ofList {k : κ} {es : List (κ × α)} : k ∈ keys (ofList es) ↔ k ∈ es.map (·.1) := by
  rw [keys_ofList, mem_firsts]

theorem nodup_keys_ofList (es : List (κ × α)) : (keys (ofList es)).Nodup := by
  rw [keys_ofList]
  exact nodup_firsts _

/-- What is found under a key is the value of the last entry for it. -/
theorem get?_ofList (k : κ) (es : List (κ × α)) :
    get? k (ofList es) = (es.findRev? fun e => e.1 = k).map (·.2) := by
  induction es using List.reverseRecOn with
  | nil => rfl
  | append_singleton es e ih =>
    rw [ofList_concat, get?_insert, ih, findRev?_concat]
    by_cases h : e.1 = k <;> simp [h]

/-- If no two entries have the same key, each is found under its own. -/
theorem get?_ofList_of_nodup {k : κ} {v : α} {es : List (κ × α)} (hn : (es.map (·.1)).Nodup) (h : (k, v) ∈ es) :
    get? k (ofList es) = some v := by
  rw [get?_ofList, findRev?_of_unique h (decide_eq_true rfl) fun e he hp => ?_]
  · rfl
  · exact List.inj_on_of_nodup_map hn he h (of_decide_eq_true hp)

/-! ## Tables of tables -/

/-- Writes a value to a key of the table under an outer key. -/
def insertWithin (outer : κ) (inner : μ) (value : α) (t : Table κ (Table μ α)) : Table κ (Table μ α) :=
  insert outer (insert inner value ((get? outer t).getD [])) t

/-- The table of tables that a sequence of entries leaves when each is written in turn. -/
def ofNested (es : List (κ × μ × α)) : Table κ (Table μ α) :=
  es.foldl (fun t e => insertWithin e.1 e.2.1 e.2.2 t) []

theorem ofNested_concat (es : List (κ × μ × α)) (e : κ × μ × α) :
    ofNested (es ++ [e]) = insertWithin e.1 e.2.1 e.2.2 (ofNested es) := by
  simp [ofNested, List.foldl_append]

theorem keys_ofNested (es : List (κ × μ × α)) : keys (ofNested es) = firsts (es.map (·.1)) :=
  keys_foldl_insert Prod.fst (fun t (e : κ × μ × α) => insert e.2.1 e.2.2 ((get? e.1 t).getD [])) es

theorem nodup_keys_ofNested (es : List (κ × μ × α)) : (keys (ofNested es)).Nodup := by
  rw [keys_ofNested]
  exact nodup_firsts _

/-- Under an outer key stands the table of the entries below it, if there are any. -/
theorem getD_ofNested (k : κ) (es : List (κ × μ × α)) :
    (get? k (ofNested es)).getD [] = ofList ((es.filter fun e => e.1 = k).map (·.2)) := by
  induction es using List.reverseRecOn with
  | nil => rfl
  | append_singleton es e ih =>
    rw [ofNested_concat, insertWithin, get?_insert, List.filter_append, List.map_append]
    by_cases h : e.1 = k
    · subst h
      rw [if_pos rfl, Option.getD_some, ih, List.filter_cons_of_pos (by simp), List.filter_nil, List.map_singleton,
        ofList_concat]
    · simp [h, ih]

/-- What is found under both keys is the value of the last entry for them. -/
theorem get?_get?_ofNested (k : κ) (m : μ) (es : List (κ × μ × α)) :
    (get? k (ofNested es)).bind (get? m) = (es.findRev? fun e => e.1 = k ∧ e.2.1 = m).map (·.2.2) := by
  induction es using List.reverseRecOn with
  | nil => rfl
  | append_singleton es e ih =>
    rw [ofNested_concat, insertWithin, get?_insert, findRev?_concat]
    -- the new entry may share its outer key with the one sought, both keys, or neither
    by_cases hk : e.1 = k
    · subst hk
      rw [if_pos rfl, Option.bind_some, get?_insert]
      by_cases hm : e.2.1 = m
      · simp [hm]
      · -- the rest of the table under the outer key is what it was
        rw [if_neg hm, if_neg (by simpa using hm), ← ih]
        cases get? e.1 (ofNested es) <;> rfl
    · rw [if_neg hk, if_neg (by simp [hk]), ih]

/-- If no two entries have the same keys, each is found under its own. -/
theorem get?_get?_ofNested_of_nodup {k : κ} {m : μ} {v : α} {es : List (κ × μ × α)}
    (hn : (es.map fun e => (e.1, e.2.1)).Nodup) (h : (k, m, v) ∈ es) :
    (get? k (ofNested es)).bind (get? m) = some v := by
  rw [get?_get?_ofNested, findRev?_of_unique h (decide_eq_true ⟨rfl, rfl⟩) fun e he hp => ?_]
  · rfl
  · obtain ⟨hk, hm⟩ := of_decide_eq_true hp
    exact List.inj_on_of_nodup_map hn he h (Prod.ext hk hm)

theorem get?_ofNested {k : κ} {es : List (κ × μ × α)} (h : k ∈ es.map (·.1)) :
    get? k (ofNested es) = some (ofList ((es.filter fun e => e.1 = k).map (·.2))) := by
  have hk : k ∈ keys (ofNested es) := by
    rw [keys_ofNested]
    exact mem_firsts.2 h
  obtain ⟨t, ht⟩ := Option.isSome_iff_exists.1 ((isSome_get? k _).2 hk)
  have hg := getD_ofNested k es
  rw [ht, Option.getD_some] at hg
  rw [ht, hg]

/-- Whatever stands in a table of tables is found under its keys. -/
theorem get?_get?_of_mem_ofNested {k : κ} {m : μ} {v : α} {t : Table μ α} {es : List (κ × μ × α)}
    (ht : (k, t) ∈ ofNested es) (hv : (m, v) ∈ t) : (get? k (ofNested es)).bind (get? m) = some v := by
  have hk : k ∈ es.map (·.1) := by
    rw [← mem_firsts, ← keys_ofNested]
    exact List.mem_map.2 ⟨(k, t), ht, rfl⟩
  have hg := get?_of_mem (nodup_keys_ofNested es) ht
  have hl := get?_ofNested hk
  rw [hg, Option.some.injEq] at hl
  subst hl
  rw [hg, Option.bind_some]
  exact get?_of_mem (nodup_keys_ofList _) hv

/-! ## The entries of a table of tables -/

/-- The entries of a table of tables, with both of their keys. -/
def entries (t : Table κ (Table μ α)) : List (κ × μ × α) := t.flatMap fun e => e.2.map fun e' => (e.1, e'.1, e'.2)

/-- A new entry joins the others, wherever it is put. -/
theorem perm_entries_insertWithin {k : κ} {m : μ} (v : α) {t : Table κ (Table μ α)}
    (h : m ∉ keys ((get? k t).getD [])) : (entries (insertWithin k m v t)).Perm (entries t ++ [(k, m, v)]) := by
  induction t with
  | nil => exact List.Perm.refl _
  | cons e rest ih =>
    obtain ⟨key, inner⟩ := e
    by_cases hk : key = k
    · -- the table below the key gets longer, and the entries after it stay behind it
      subst hk
      rw [get?, if_pos rfl, Option.getD_some] at h
      have hinsert : insertWithin key m v ((key, inner) :: rest) = (key, inner ++ [(m, v)]) :: rest := by
        rw [insertWithin, get?, if_pos rfl, Option.getD_some, insert, if_pos rfl, insert_of_notMem v h]
      rw [hinsert, entries, entries, List.flatMap_cons, List.flatMap_cons, List.map_append, List.append_assoc,
        List.append_assoc]
      exact List.perm_append_comm.append_left _
    · rw [get?, if_neg hk] at h
      have hinsert : insertWithin k m v ((key, inner) :: rest) = (key, inner) :: insertWithin k m v rest := by
        rw [insertWithin, get?, if_neg hk, insert, if_neg hk, insertWithin]
      rw [hinsert, entries, entries, List.flatMap_cons, List.flatMap_cons, List.append_assoc]
      exact (ih h).append_left _

/-- If no two entries have the same keys, all of them are in the table that they fill. -/
theorem perm_entries_ofNested {es : List (κ × μ × α)} (hn : (es.map fun e => (e.1, e.2.1)).Nodup) :
    (entries (ofNested es)).Perm es := by
  induction es using List.reverseRecOn with
  | nil => exact List.Perm.refl _
  | append_singleton es e ih =>
    rw [List.map_append, List.map_singleton] at hn
    obtain ⟨hes, _, hnew⟩ := List.nodup_append.1 hn
    have hfresh : e.2.1 ∉ keys ((get? e.1 (ofNested es)).getD []) := by
      rw [getD_ofNested, mem_keys_ofList, List.map_map]
      intro hmem
      obtain ⟨e', he', hm⟩ := List.mem_map.1 hmem
      obtain ⟨he', hk⟩ := List.mem_filter.1 he'
      have hkeys : (e'.1, e'.2.1) = (e.1, e.2.1) := Prod.ext (of_decide_eq_true hk) hm
      exact hnew _ (List.mem_map_of_mem he') _ (List.mem_singleton.2 rfl) hkeys
    rw [ofNested_concat]
    exact (perm_entries_insertWithin e.2.2 hfresh).trans ((ih hes).append_right _)

end ContractApi.Table
