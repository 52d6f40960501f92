import ContractApi.Proofs.Canonical
import ContractApi.Proofs.Spelling
/-!
# Short spellings are whole words

Expansion replaces a short spelling where it stands as a whole word. Everything about it follows from what it does to a
word, and from the fact that a character outside words cuts a text in two that are expanded apart
(`expandAliases_append_cons`).

- `Text.HasWord` says that a word stands in a text as a whole, with no part of a word before it or behind it.
- A text is left as it is exactly if no short spelling stands in it as a whole (`expandAliases_eq_self_iff`); so
  expanding a text again changes nothing (`expandAliases_expandAliases`).
- Expansion makes nothing that begins like a tuple (`not_tuple_expandAliases`), leaves lists of expanded texts as they
  are (`expandAliases_joined`) and does not depend on brackets behind a text (`expandAliases_append_brackets`).
-/

namespace ContractApi

namespace Text

/-! ## Words of a text -/

/-- Whether nothing in the text ends a word. -/
def IsWord (t : Text) : Prop := ∀ c ∈ t, c.isWord = true

/-- Whether the word stands in the text as a whole: no part of a word is right before it or right behind it. -/
def HasWord (word t : Text) : Prop := ∃ before after, t = before ++ word ++ after ∧
  (∀ c ∈ before.getLast?, c.isWord = false) ∧ ∀ c ∈ after.head?, c.isWord = false

/-- A text as words, which may be empty, and the characters that end them. -/
inductive InWords : Text → Prop
  | word (w : Text) (hw : w.IsWord) : InWords w
  | cut (w : Text) (c : CodePoint) (rest : Text) (hw : w.IsWord) (hc : c.isWord = false) (hrest : InWords rest) :
      InWords (w ++ c :: rest)

theorem isWord_nil : IsWord [] := fun _ h => absurd h List.not_mem_nil

theorem IsWord.cons {c : CodePoint} {w : Text} (hc : c.isWord = true) (hw : w.IsWord) : IsWord (c :: w) :=
  List.forall_mem_cons.2 ⟨hc, hw⟩

theorem inWords : ∀ t : Text, t.InWords
  | [] => .word [] isWord_nil
  | c :: t => by
    cases hc : c.isWord with
    | false => exact .cut [] c t isWord_nil hc (inWords t)
    | true =>
      cases inWords t with
      | word _ hw => exact .word _ (hw.cons hc)
      | cut w d rest hw hd hrest => exact .cut (c :: w) d rest (hw.cons hc) hd hrest

/-- A word that is followed by the end of the text or by a character outside words is all of the text up to there. -/
theorem isWord_append_inj {a b r s : Text} (ha : a.IsWord) (hb : b.IsWord) (hr : ∀ c ∈ r.head?, c.isWord = false)
    (hs : ∀ c ∈ s.head?, c.isWord = false) (h : a ++ r = b ++ s) : a = b ∧ r = s := by
  have hn : ∀ {t : Text}, t.IsWord → ∀ c ∈ t, (!c.isWord) = false := fun ht c hc => by rw [ht c hc]; rfl
  have hstop : ∀ {t : Text}, (∀ c ∈ t.head?, c.isWord = false) → ∀ c ∈ t.head?, (!c.isWord) = true :=
    fun ht c hc => by rw [ht c hc]; rfl
  exact Abi.append_inj_of_stop (hn ha) (hn hb) (hstop hr) (hstop hs) h

/-- No part of a word ends in a character outside words. -/
theorem IsWord.eq_nil_of_getLast? {w : Text} (hw : w.IsWord) (h : ∀ c ∈ w.getLast?, c.isWord = false) : w = [] := by
  cases hl : w.getLast? with
  | none => exact List.getLast?_eq_none_iff.1 hl
  | some c => exact absurd (hw c (List.mem_of_getLast? hl)) (by simp [h c hl])

/-- The only word that stands in a word as a whole is that word. -/
theorem hasWord_of_isWord {word w : Text} (hw : w.IsWord) : HasWord word w ↔ word = w := by
  constructor
  · rintro ⟨before, after, rfl, hb, ha⟩
    obtain ⟨hwb, hwa⟩ := List.forall_mem_append.1 hw
    have hbefore : before = [] := IsWord.eq_nil_of_getLast? (List.forall_mem_append.1 hwb).1 hb
    have hafter : after = [] := by
      cases after with
      | nil => rfl
      | cons c after => exact absurd (hwa c List.mem_cons_self) (by simp [ha c rfl])
    rw [hbefore, hafter, List.nil_append, List.append_nil]
  · rintro rfl
    exact ⟨[], [], by rw [List.nil_append, List.append_nil], by simp, by simp⟩

/-- A word stands in a text as a whole if it is the first word or stands in what follows it. -/
theorem hasWord_cut {word w : Text} {c : CodePoint} {rest : Text} (hword : word.IsWord) (hne : word ≠ [])
    (hw : w.IsWord) (hc : c.isWord = false) :
    HasWord word (w ++ c :: rest) ↔ word = w ∨ HasWord word rest := by
  constructor
  · rintro ⟨before, after, h, hb, ha⟩
    rw [List.append_assoc] at h
    rcases List.append_eq_append_iff.1 h with ⟨m, hbefore, hm⟩ | ⟨m, rfl, hm⟩
    · cases m with
      | nil =>
        -- the word would begin outside words
        obtain ⟨d, word, rfl⟩ := List.exists_cons_of_ne_nil hne
        obtain ⟨rfl, _⟩ := List.cons.inj hm
        exact absurd (hword c List.mem_cons_self) (by simp [hc])
      | cons d m =>
        obtain ⟨rfl, rfl⟩ := List.cons.inj hm
        refine .inr ⟨m, after, (List.append_assoc ..).symm, fun e he => hb e ?_, ha⟩
        rw [hbefore, List.getLast?_append_of_ne_nil _ (List.cons_ne_nil c m)]
        cases m with
        | nil => cases he
        | cons => rwa [List.getLast?_cons_cons]
    · have hbefore : before = [] := IsWord.eq_nil_of_getLast? (List.forall_mem_append.1 hw).1 hb
      subst hbefore
      exact .inl (isWord_append_inj hword (List.forall_mem_append.1 hw).2 ha (by simp [hc]) hm).1
  · rintro (rfl | ⟨before, after, rfl, hb, ha⟩)
    · exact ⟨[], c :: rest, rfl, by simp, by simp [hc]⟩
    · refine ⟨w ++ c :: before, after, by simp, fun d hd => ?_, ha⟩
      rw [List.getLast?_append_of_ne_nil _ (List.cons_ne_nil c before)] at hd
      cases before with
      | nil =>
        cases hd
        exact hc
      | cons => exact hb d (by rwa [List.getLast?_cons_cons] at hd)

/-- The first of several texts goes up to the separator that is behind it. -/
theorem joined_cons_cons (c : CodePoint) (separator t u : Text) (ts : List Text) :
    joined (c :: separator) (t :: u :: ts) = t ++ c :: (separator ++ joined (c :: separator) (u :: ts)) := by
  simp only [joined, List.intercalate_cons_cons, List.append_assoc, List.cons_append]

end Text

namespace Abi

open Text

/-! ## Expansion word by word -/

/-- Short spellings and what they stand for are words, and none of what they stand for is short. -/
theorem isWord_of_mem_aliases : ∀ e ∈ aliases, e.1 ≠ [] ∧ e.1.IsWord ∧ e.2.IsWord ∧ ∀ e' ∈ aliases, e'.1 ≠ e.2 := by
  have hne : ∀ e ∈ aliases, e.1 ≠ [] := by decide
  have hshort : ∀ e ∈ aliases, e.1.all CodePoint.isWord = true := by decide
  have hlong : ∀ e ∈ aliases, e.2.all CodePoint.isWord = true := by decide
  have hnot : ∀ e ∈ aliases, ∀ e' ∈ aliases, e'.1 ≠ e.2 := by decide
  intro e he
  exact ⟨hne e he, List.all_eq_true.1 (hshort e he), List.all_eq_true.1 (hlong e he), hnot e he⟩

/-- What is no short spelling is left alone. -/
theorem expandWord_cases (w : Text) :
    ((∀ e ∈ aliases, e.1 ≠ w) ∧ expandWord w = w) ∨ (w, expandWord w) ∈ aliases := by
  unfold expandWord
  cases hl : aliases.lookup w with
  | none =>
    refine .inl ⟨fun e he h => ?_, rfl⟩
    have hne := List.lookup_eq_none_iff.1 hl e he
    simp [h] at hne
  | some t =>
    obtain ⟨before, after, he, _⟩ := List.lookup_eq_some_iff.1 hl
    exact .inr (he ▸ List.mem_append_right _ List.mem_cons_self)

theorem expandWord_eq_self_iff {w : Text} : expandWord w = w ↔ ∀ e ∈ aliases, e.1 ≠ w := by
  rcases expandWord_cases w with ⟨hne, h⟩ | h
  · exact iff_of_true h hne
  · refine iff_of_false (fun heq => ?_) fun hne => hne _ h rfl
    exact (isWord_of_mem_aliases _ h).2.2.2 _ h heq.symm

/-- A text that holds anything outside words is no short spelling. -/
theorem expandWord_of_not_isWord {w : Text} {c : CodePoint} (hmem : c ∈ w) (hc : c.isWord = false) :
    expandWord w = w := by
  refine expandWord_eq_self_iff.2 fun e he h => ?_
  have hword := (isWord_of_mem_aliases e he).2.1 c (h ▸ hmem)
  simp [hc] at hword

theorem isWord_expandWord {w : Text} (hw : w.IsWord) : (expandWord w).IsWord := by
  rcases expandWord_cases w with ⟨_, h⟩ | h
  · rwa [h]
  · exact (isWord_of_mem_aliases _ h).2.2.1

theorem expandWord_expandWord (w : Text) : expandWord (expandWord w) = expandWord w := by
  rcases expandWord_cases w with ⟨_, h⟩ | h
  · rw [h, h]
  · exact expandWord_eq_self_iff.2 (isWord_of_mem_aliases _ h).2.2.2

/-- A run of characters which all are part of words, or all outside them, is cut off as a whole. -/
theorem wordRuns_append {u r : Text} {b : Bool} (hne : u ≠ []) (hu : ∀ c ∈ u, c.isWord = b)
    (hr : ∀ c ∈ r.head?, c.isWord = !b) : wordRuns (u ++ r) = u :: wordRuns r := by
  have hrun : wordRuns u = [u] := by
    refine List.splitBy_of_isChain hne (List.Pairwise.isChain (List.pairwise_of_forall_mem_list ?_))
    intro c hc d hd
    rw [hu c hc, hu d hd]
    exact beq_self_eq_true b
  rw [wordRuns, List.splitBy_append, ← wordRuns, hrun]
  · rfl
  · intro c hc d hd
    rw [hu c (List.mem_of_getLast? hc), hr d hd]
    cases b <;> rfl

/-- What stands outside words is left alone. -/
theorem expandAliases_outside_append {u r : Text} (hu : ∀ c ∈ u, c.isWord = false)
    (hr : ∀ c ∈ r.head?, c.isWord = true) : expandAliases (u ++ r) = u ++ expandAliases r := by
  cases u with
  | nil => rfl
  | cons c u =>
    have hc := hu c List.mem_cons_self
    rw [expandAliases, wordRuns_append (List.cons_ne_nil c u) hu hr, List.flatMap_cons,
      expandWord_of_not_isWord List.mem_cons_self hc]
    rfl

theorem expandAliases_cons {c : CodePoint} (hc : c.isWord = false) (t : Text) :
    expandAliases (c :: t) = c :: expandAliases t := by
  have hu : ∀ d ∈ t.takeWhile (!·.isWord), d.isWord = false := fun d hd => by
    simpa using List.mem_takeWhile_imp hd
  have hr : ∀ d ∈ (t.dropWhile (!·.isWord)).head?, d.isWord = true := fun d hd => by
    have h := List.head?_dropWhile_not (!·.isWord) t
    rw [hd] at h
    simpa using h
  have ht : t.takeWhile (!·.isWord) ++ t.dropWhile (!·.isWord) = t := List.takeWhile_append_dropWhile
  calc expandAliases (c :: t)
      = expandAliases ((c :: t.takeWhile (!·.isWord)) ++ t.dropWhile (!·.isWord)) := by rw [List.cons_append, ht]
    _ = c :: (t.takeWhile (!·.isWord) ++ expandAliases (t.dropWhile (!·.isWord))) :=
        expandAliases_outside_append (List.forall_mem_cons.2 ⟨hc, hu⟩) hr
    _ = c :: expandAliases t := by rw [← expandAliases_outside_append hu hr, ht]

theorem expandAliases_word_append {w r : Text} (hw : w.IsWord) (hr : ∀ c ∈ r.head?, c.isWord = false) :
    expandAliases (w ++ r) = expandWord w ++ expandAliases r := by
  cases w with
  | nil => rfl
  | cons c w => rw [expandAliases, wordRuns_append (List.cons_ne_nil c w) hw hr, List.flatMap_cons, expandAliases]

theorem expandAliases_word {w : Text} (hw : w.IsWord) : expandAliases w = expandWord w := by
  have h := expandAliases_word_append (r := []) hw (by simp)
  rw [List.append_nil] at h
  rw [h]
  exact List.append_nil _

theorem expandAliases_cut {w : Text} {c : CodePoint} (hw : w.IsWord) (hc : c.isWord = false) (rest : Text) :
    expandAliases (w ++ c :: rest) = expandWord w ++ c :: expandAliases rest := by
  rw [expandAliases_word_append hw (by simp [hc]), expandAliases_cons hc]

/-- A character outside words cuts a text in two that are expanded apart. -/
theorem expandAliases_append_cons (a : Text) {c : CodePoint} (hc : c.isWord = false) (b : Text) :
    expandAliases (a ++ c :: b) = expandAliases a ++ c :: expandAliases b := by
  induction a.inWords with
  | word w hw => rw [expandAliases_cut hw hc, expandAliases_word hw]
  | cut w d rest hw hd _ ih =>
    rw [List.append_assoc, List.cons_append, expandAliases_cut hw hd, ih, expandAliases_cut hw hd, List.append_assoc,
      List.cons_append]

/-! ## What is left as it is -/

/-- Expanding a text again changes nothing. -/
theorem expandAliases_expandAliases (t : Text) : expandAliases (expandAliases t) = expandAliases t := by
  induction t.inWords with
  | word w hw => rw [expandAliases_word hw, expandAliases_word (isWord_expandWord hw), expandWord_expandWord]
  | cut w c rest hw hc _ ih =>
    rw [expandAliases_cut hw hc, expandAliases_cut (isWord_expandWord hw) hc, expandWord_expandWord, ih]

/-- A text is left as it is exactly if no short spelling stands in it as a whole word. -/
theorem expandAliases_eq_self_iff {t : Text} : expandAliases t = t ↔ ∀ e ∈ aliases, ¬HasWord e.1 t := by
  induction t.inWords with
  | word w hw =>
    rw [expandAliases_word hw, expandWord_eq_self_iff]
    exact forall₂_congr fun e _ => not_congr (hasWord_of_isWord hw).symm
  | cut w c rest hw hc _ ih =>
    have hsplit : expandWord w ++ c :: expandAliases rest = w ++ c :: rest ↔
        expandWord w = w ∧ expandAliases rest = rest := by
      constructor
      · intro h
        obtain ⟨hword, htail⟩ := isWord_append_inj (isWord_expandWord hw) hw (by simp [hc]) (by simp [hc]) h
        exact ⟨hword, (List.cons.inj htail).2⟩
      · rintro ⟨hword, hrest⟩
        rw [hword, hrest]
    rw [expandAliases_cut hw hc, hsplit, expandWord_eq_self_iff, ih, ← forall₂_and]
    refine forall₂_congr fun e he => ?_
    obtain ⟨hne, hword, _⟩ := isWord_of_mem_aliases e he
    rw [hasWord_cut hword hne hw hc, not_or]

/-- What begins a text, and holds nothing outside words, begins the first word. -/
theorem prefix_of_isWord {u w : Text} {c : CodePoint} {rest : Text} (hu : u.IsWord) (hc : c.isWord = false)
    (h : u <+: w ++ c :: rest) : u <+: w := by
  rcases List.prefix_or_prefix_of_prefix h (List.prefix_append w (c :: rest)) with h' | ⟨v, rfl⟩
  · exact h'
  · cases v with
    | nil => simp
    | cons d v =>
      -- the beginning would hold the character that ends the word
      obtain ⟨rfl, _⟩ := List.cons_prefix_cons.1 ((List.prefix_append_right_inj w).1 h)
      exact absurd (hu d (List.mem_append_right _ List.mem_cons_self)) (by simp [hc])

theorem isWord_tupleWord : tupleWord.IsWord := by
  have hall : tupleWord.all CodePoint.isWord = true := by decide
  exact List.all_eq_true.1 hall

/-- Expansion makes nothing that begins like a tuple. -/
theorem not_tuple_expandAliases {t : Text} (h : ¬tupleWord <+: t) : ¬tupleWord <+: expandAliases t := by
  have halias : ∀ e ∈ aliases, ¬tupleWord <+: e.2 := by decide
  have hword : ∀ w : Text, ¬tupleWord <+: w → ¬tupleWord <+: expandWord w := by
    intro w hw
    rcases expandWord_cases w with ⟨_, he⟩ | he
    · rwa [he]
    · exact halias _ he
  cases t.inWords with
  | word _ hw =>
    rw [expandAliases_word hw]
    exact hword t h
  | cut w c rest hw hc _ =>
    rw [expandAliases_cut hw hc]
    have hfirst : ¬tupleWord <+: w := fun hp => h (hp.trans (List.prefix_append _ _))
    exact fun hp => hword w hfirst (prefix_of_isWord isWord_tupleWord hc hp)

/-! ## Lists and brackets -/

/-- A list of texts that are left as they are is left as it is. -/
theorem expandAliases_joined : ∀ {ts : List Text}, (∀ t ∈ ts, expandAliases t = t) →
    expandAliases (joined "," ts) = joined "," ts
  | [], _ => rfl
  | [t], h => by
    rw [joined, List.intercalate_singleton]
    exact h t List.mem_cons_self
  | t :: u :: ts, h => by
    have ih := expandAliases_joined fun v hv => h v (List.mem_cons_of_mem t hv)
    have hcut := expandAliases_append_cons t (c := ',') (by decide) (joined "," (u :: ts))
    rw [h t List.mem_cons_self, ih] at hcut
    exact (congrArg expandAliases (joined_cons_cons ',' [] t u ts)).trans
      (hcut.trans (joined_cons_cons ',' [] t u ts).symm)

/-- Whether the text is made of pairs of brackets with ASCII digits or nothing in between. -/
inductive IsBrackets : Text → Prop
  | nil : IsBrackets []
  | cons {digits rest : Text} (hd : Schema.IsDigits digits) (hr : IsBrackets rest) :
      IsBrackets ("[" ++ digits ++ "]" ++ rest)

/-- Digits are part of a word, but of no short spelling. -/
theorem expandAliases_digits {digits : Text} (h : Schema.IsDigits digits) : expandAliases digits = digits := by
  have hword : digits.IsWord := by
    intro c hc
    have hdigit := h c hc
    simp only [CodePoint.isDigit, Bool.and_eq_true, decide_eq_true_eq] at hdigit
    exact inRanges_of_covers hdigit.1 hdigit.2 (by decide)
  have halias : ∀ e ∈ aliases, e.1.all CodePoint.isDigit = false := by decide
  rw [expandAliases_word hword, expandWord_eq_self_iff]
  rintro e he rfl
  have hall : e.1.all CodePoint.isDigit = true := List.all_eq_true.2 h
  exact Bool.false_ne_true ((halias e he).symm.trans hall)

theorem expandAliases_brackets {s : Text} (h : IsBrackets s) : expandAliases s = s := by
  induction h with
  | nil => rfl
  | @cons digits rest hd _ ih =>
    have hopen : expandAliases (CodePoint.ofChar '[' :: (digits ++ CodePoint.ofChar ']' :: rest)) =
        CodePoint.ofChar '[' :: (digits ++ CodePoint.ofChar ']' :: rest) := by
      rw [expandAliases_cons (by decide), expandAliases_append_cons digits (by decide), expandAliases_digits hd, ih]
    have hs : Text.ofString "[" ++ digits ++ Text.ofString "]" ++ rest =
        CodePoint.ofChar '[' :: (digits ++ CodePoint.ofChar ']' :: rest) := by
      simp only [List.append_assoc]
      rfl
    rwa [hs]

/-- Brackets begin outside words, if there are any. -/
theorem IsBrackets.eq_nil_or_cons {s : Text} (h : IsBrackets s) :
    s = [] ∨ ∃ c rest, s = c :: rest ∧ c.isWord = false := by
  cases h with
  | nil => exact .inl rfl
  | @cons digits rest _ _ => exact .inr ⟨'[', digits ++ "]" ++ rest, by simp [Text.ofString], by decide⟩

/-- Brackets behind a text do not change how it is expanded. -/
theorem expandAliases_append_brackets (t : Text) {s : Text} (h : IsBrackets s) :
    expandAliases (t ++ s) = expandAliases t ++ s := by
  have hs := expandAliases_brackets h
  obtain rfl | ⟨c, rest, rfl, hc⟩ := h.eq_nil_or_cons
  · rw [List.append_nil, List.append_nil]
  · rw [expandAliases_append_cons t hc, ← expandAliases_cons hc, hs]

/-- Brackets behind a text do not make it begin like a tuple. -/
theorem not_tuple_append_brackets {t s : Text} (ht : ¬tupleWord <+: t) (h : IsBrackets s) : ¬tupleWord <+: t ++ s := by
  obtain rfl | ⟨c, rest, rfl, hc⟩ := h.eq_nil_or_cons
  · rwa [List.append_nil]
  · exact fun hp => ht (prefix_of_isWord isWord_tupleWord hc hp)

end Abi

end ContractApi
