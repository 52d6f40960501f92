import ContractApi.CommandLine.Document
import ContractApi.Proofs.LegibleDocument
import Mathlib.Data.List.TakeDrop
/-!
# What is read has whole pairs

A JSON text without surrogates is read as a value in no text of which the halves of a surrogate pair stand in a row
(`unsplit_readWithin`). No code point of the text is such a half, and an escape that gives the first half takes the one
behind it that gives the second, so that what is read next makes no pair with it. `Awaits` says this of what was read and
what follows; every step keeps it (`readTextFrom_step`), and so does the whole text (`unsplit_readTextFrom`).

What reading leaves of a text is a part of it, so that the rest of a text without surrogates has none either, and the
argument goes through values of any depth (`unsplit_readValue`). The text that bytes encode has no surrogates, hence
every document that a file holds has whole pairs (`unsplit_of_bytes`).
-/

namespace ContractApi.Json

open Text

/-! ## Escapes -/

theorem readUnit_eq_ok {u rest : Text} {c : CodePoint} (h : readUnit u = .ok (c, rest)) :
    rest = u.drop 5 ∧ rest ≠ [] := by
  simp only [readUnit] at h
  split at h
  · cases h
  · rename_i hne
    split at h
    · cases h
      exact ⟨rfl, fun hnil => hne (by rw [hnil]; rfl)⟩
    · cases h

theorem subset_readUnit {u rest : Text} {c : CodePoint} (h : readUnit u = .ok (c, rest)) : rest ⊆ u := by
  rw [(readUnit_eq_ok h).1]
  exact List.drop_subset 5 u

theorem subset_of_unitAhead? {text u : Text} (h : unitAhead? text = some u) : u ⊆ text := by
  unfold unitAhead? at h
  split at h
  · split at h
    · cases h
      exact List.subset_cons_self _ _
    · cases h
  · cases h

/-- Whether no escape at the beginning gives the second half of a pair. -/
def Closed (text : Text) : Prop :=
  ∀ u d rest, unitAhead? text = some u → readUnit u = .ok (d, rest) → d.isLowSurrogate = false

theorem isSurrogate_joinSurrogates {high low : CodePoint} (hh : high.isHighSurrogate = true)
    (hl : low.isLowSurrogate = true) : (joinSurrogates high low).isSurrogate = false := by
  simp only [CodePoint.isHighSurrogate, CodePoint.isLowSurrogate, Bool.and_eq_true, decide_eq_true_eq] at hh hl
  rw [joinSurrogates, CodePoint.isSurrogate, val_ofNat (by omega), Bool.and_eq_false_iff]
  right
  exact decide_eq_false (by omega)

/-- A code point is given by one escape, with which the next one makes no pair, or by the escapes of a pair. -/
theorem readUnicode_cases {u rest : Text} {c : CodePoint} (h : readUnicode u = .ok (c, rest)) :
    (readUnit u = .ok (c, rest) ∧ (c.isHighSurrogate = true → Closed rest)) ∨
      ∃ high behind u' low, readUnit u = .ok (high, behind) ∧ unitAhead? behind = some u' ∧
        readUnit u' = .ok (low, rest) ∧ high.isHighSurrogate = true ∧ low.isLowSurrogate = true ∧
          c = joinSurrogates high low := by
  cases hu : readUnit u with
  | error e =>
    rw [readUnicode, hu] at h
    cases h
  | ok found =>
    obtain ⟨d, behind⟩ := found
    rw [readUnicode_eq hu] at h
    split at h
    case isFalse hhigh =>
      cases h
      exact .inl ⟨rfl, fun hc => absurd hc hhigh⟩
    case isTrue hhigh =>
      split at h
      case h_2 hnone =>
        cases h
        refine .inl ⟨rfl, fun _ u' d' r' hu' => ?_⟩
        cases hnone.symm.trans hu'
      case h_1 u' hu' =>
        obtain ⟨⟨d', rest'⟩, hd, h⟩ := except_bind_eq_ok.1 h
        dsimp only at h
        split at h
        case isTrue hlow =>
          obtain ⟨rfl, rfl⟩ := Prod.mk.inj (Except.ok.inj h)
          exact .inr ⟨d, behind, u', d', rfl, hu', hd, hhigh, hlow, rfl⟩
        case isFalse hlow =>
          cases h
          refine .inl ⟨rfl, fun _ u'' d'' r'' hu'' hd'' => ?_⟩
          cases hu'.symm.trans hu''
          cases hd.symm.trans hd''
          exact Bool.eq_false_iff.2 hlow

theorem subset_readUnicode {u rest : Text} {c : CodePoint} (h : readUnicode u = .ok (c, rest)) : rest ⊆ u := by
  obtain ⟨hu, _⟩ | ⟨high, behind, u', low, hu, hu', hd, _⟩ := readUnicode_cases h
  · exact subset_readUnit hu
  · have hbehind := List.Subset.trans (subset_of_unitAhead? hu') (subset_readUnit hu)
    exact List.Subset.trans (subset_readUnit hd) hbehind

/-- An escape gives the first half of a pair only where none behind it gives the second. -/
theorem closed_readUnicode {u rest : Text} {c : CodePoint} (h : readUnicode u = .ok (c, rest))
    (hc : c.isHighSurrogate = true) : Closed rest := by
  obtain ⟨_, hclosed⟩ | ⟨_, _, _, _, _, _, _, hhigh, hlow, rfl⟩ := readUnicode_cases h
  · exact hclosed hc
  · rw [isHighSurrogate_of_plain (isSurrogate_joinSurrogates hhigh hlow)] at hc
    cases hc

/-- An escape gives the second half of a pair only if it stands alone. -/
theorem readUnit_of_low {u rest : Text} {c : CodePoint} (h : readUnicode u = .ok (c, rest))
    (hc : c.isLowSurrogate = true) : readUnit u = .ok (c, rest) := by
  obtain ⟨hu, _⟩ | ⟨_, _, _, _, _, _, _, hhigh, hlow, rfl⟩ := readUnicode_cases h
  · exact hu
  · rw [isLowSurrogate_of_plain (isSurrogate_joinSurrogates hhigh hlow)] at hc
    cases hc

theorem isSurrogate_unescape? {e c : CodePoint} (h : unescape? e = some c) : c.isSurrogate = false := by
  unfold unescape? at h
  split_ifs at h with hsame <;> cases h
  · rcases hsame with rfl | rfl | rfl <;> decide
  all_goals decide

/-! ## Texts -/

/-- Whether what follows makes no pair with what was read, last first. -/
def Awaits (read text : Text) : Prop := ∀ c ∈ read.head?, c.isHighSurrogate = true → Closed text

/-- Whether a code point makes no pair with what was read, last first. -/
def Fits (read : Text) (d : CodePoint) : Prop := ∀ c ∈ read.head?, c.isHighSurrogate = true → d.isLowSurrogate = false

theorem Fits.unsplit {read : Text} {d : CodePoint} (h : Fits read d) (hr : Unsplit read.reverse) :
    Unsplit (d :: read).reverse := by
  rw [List.reverse_cons]
  refine List.isChain_append.2 ⟨hr, List.isChain_singleton d, fun c hc d' hd hpair => ?_⟩
  rw [List.getLast?_reverse] at hc
  cases hd
  rw [h c hc hpair.1] at hpair
  cases hpair.2

theorem fits_of_plain {d : CodePoint} (hd : d.isSurrogate = false) (read : Text) : Fits read d :=
  fun _ _ _ => isLowSurrogate_of_plain hd

theorem awaits_of_plain {d : CodePoint} (hd : d.isSurrogate = false) (read text : Text) : Awaits (d :: read) text := by
  intro c hc hhigh
  cases hc
  rw [isHighSurrogate_of_plain hd] at hhigh
  cases hhigh

/-- An escape that is awaited gives no second half of a pair. -/
theorem Awaits.fits {read more rest : Text} {d : CodePoint} (ha : Awaits read (.ofChar '\\' :: .ofChar 'u' :: more))
    (hd : readUnicode (.ofChar 'u' :: more) = .ok (d, rest)) : Fits read d := by
  intro c hc hhigh
  refine Bool.eq_false_iff.2 fun hlow => ?_
  have hunit := readUnit_of_low hd hlow
  have hne : more.drop 4 ≠ [] := by
    obtain ⟨rfl, hne⟩ := readUnit_eq_ok hunit
    exact hne
  have hd := ha c hc hhigh _ _ _ (if_pos ⟨rfl, rfl, hne⟩) hunit
  rw [hlow] at hd
  cases hd

/-- A step ends the text, or reads a code point that fits what was read and awaits what follows. -/
theorem readTextFrom_step {opening read text t rest : Text} {fuel : Nat} {c : CodePoint} (hp : Text.Plain (c :: text))
    (ha : Awaits read (c :: text)) (h : readTextFrom opening (fuel + 1) read (c :: text) = .ok (t, rest)) :
    (t = read.reverse ∧ rest = text) ∨ ∃ d more, more ⊆ text ∧ Fits read d ∧ Awaits (d :: read) more ∧
      readTextFrom opening fuel (d :: read) more = .ok (t, rest) := by
  rw [readTextFrom.eq_def] at h
  dsimp only at h
  split at h
  · -- the closing quote
    cases h
    exact .inl ⟨rfl, rfl⟩
  · split at h
    · rename_i hslash
      split at h
      · cases h
      · rename_i e rest'
        split at h
        · -- an escape of sixteen bits, or two of them
          rename_i hu
          obtain ⟨⟨d, more⟩, hd, hnext⟩ := except_bind_eq_ok.1 h
          subst hslash hu
          refine .inr ⟨d, more, subset_readUnicode hd, ha.fits hd, fun _ hc hhigh => ?_, hnext⟩
          cases hc
          exact closed_readUnicode hd hhigh
        · split at h
          · -- a letter that stands for a code point
            rename_i d hd
            have hplain := isSurrogate_unescape? hd
            exact .inr ⟨d, rest', List.subset_cons_self _ _, fits_of_plain hplain _, awaits_of_plain hplain _ _, h⟩
          · cases h
    · split at h
      · cases h
      · have hc := hp c List.mem_cons_self
        exact .inr ⟨c, text, List.Subset.refl _, fits_of_plain hc _, awaits_of_plain hc _ _, h⟩

/-- The rest of a text is read with its pairs whole, and what follows it is a part of what there was. -/
theorem unsplit_readTextFrom (opening : Text) {t rest : Text} {fuel : Nat} : ∀ {read text : Text}, text.Plain →
    Unsplit read.reverse → Awaits read text → readTextFrom opening fuel read text = .ok (t, rest) →
      t.Unsplit ∧ rest ⊆ text := by
  induction fuel with
  | zero =>
    intro read text _ _ _ h
    cases h
  | succ fuel ih =>
    intro read text hp hr ha h
    cases text with
    | nil => cases h
    | cons c text =>
      obtain ⟨rfl, rfl⟩ | ⟨d, more, hsub, hfits, hawaits, hnext⟩ := readTextFrom_step hp ha h
      · exact ⟨hr, List.subset_cons_self _ _⟩
      · have hsub' := List.Subset.trans hsub (List.subset_cons_self c text)
        obtain ⟨ht, hrest⟩ := ih (hp.of_subset hsub') (hfits.unsplit hr) hawaits hnext
        exact ⟨ht, List.Subset.trans hrest hsub'⟩

/-- A text is read with its pairs whole. -/
theorem unsplit_readText {fuel : Nat} {opening t rest : Text} (hp : opening.Plain)
    (h : readText fuel opening = .ok (t, rest)) : t.Unsplit ∧ rest ⊆ opening := by
  have hdrop := List.drop_subset 1 opening
  have hnone : Awaits [] (opening.drop 1) := fun c hc => by cases hc
  have hnil : Unsplit (List.reverse []) := List.IsChain.nil
  have ht := unsplit_readTextFrom opening (hp.of_subset hdrop) hnil hnone h
  exact ⟨ht.1, List.Subset.trans ht.2 hdrop⟩

/-! ## Numbers and words -/

theorem subset_digitsOf (text : Text) : (digitsOf text).2 ⊆ text := by
  rw [digitsOf, List.span_eq_takeWhile_dropWhile]
  exact List.dropWhile_subset _

theorem subset_readWhole? {text digits rest : Text} (h : readWhole? text = some (digits, rest)) : rest ⊆ text := by
  unfold readWhole? at h
  split at h
  · rename_i c text
    split at h
    · cases h
      exact List.subset_cons_self c _
    · split at h
      · have hsub := subset_digitsOf (c :: text)
        rw [Option.some.inj h] at hsub
        exact hsub
      · cases h
  · cases h

theorem subset_readFraction? {text digits rest : Text} (h : readFraction? text = some (digits, rest)) :
    rest ⊆ text := by
  unfold readFraction? at h
  split at h
  · rename_i c text
    have hsub := subset_digitsOf text
    split at h
    · cases h
    · split at h
      · rw [Option.some.inj h] at hsub
        exact List.Subset.trans hsub (List.subset_cons_self c _)
      · cases h
  · cases h

theorem subset_readExponent? {text rest : Text} {n : Int} (h : readExponent? text = some (n, rest)) :
    rest ⊆ text := by
  unfold readExponent? at h
  split at h
  · rename_i e behind
    split at h
    · dsimp only at h
      split at h
      · cases h
      · rename_i digits rest' _ hdigits
        -- what stands behind a sign, if there is one
        have hsigned : ∀ signed : Bool × Text, digitsOf signed.2 = (digits, rest') → signed.2 ⊆ behind →
            rest' ⊆ e :: behind := by
          intro signed hd hsub
          have hdigits := subset_digitsOf signed.2
          rw [hd] at hdigits
          exact List.Subset.trans hdigits (List.Subset.trans hsub (List.subset_cons_self e _))
        cases h
        refine hsigned _ hdigits ?_
        split
        · split_ifs
          · exact List.subset_cons_self _ _
          · exact List.subset_cons_self _ _
          · exact List.Subset.refl _
        · exact List.Subset.refl _
    · cases h
  · cases h

/-- A number is no text, and what follows it is a part of what there was. -/
theorem unsplit_readMagnitude {start text rest : Text} {negative : Bool} {v : Value}
    (h : readMagnitude start negative text = .ok (v, rest)) : v.Unsplit ∧ rest ⊆ text := by
  unfold readMagnitude at h
  split at h
  · cases h
  · rename_i whole behind hwhole
    have hsub := subset_readWhole? hwhole
    cases hfraction : readFraction? behind with
    | none =>
      simp only [hfraction, Bool.false_eq_true, if_false] at h
      split at h
      · rename_i exponent rest' hexponent
        cases h
        exact ⟨trivial, List.Subset.trans (subset_readExponent? hexponent) hsub⟩
      · split at h
        · cases h
        · cases h
          exact ⟨trivial, hsub⟩
    | some found =>
      obtain ⟨fraction, behind'⟩ := found
      have hsub' := List.Subset.trans (subset_readFraction? hfraction) hsub
      simp only [hfraction, if_true] at h
      split at h
      · rename_i exponent rest' hexponent
        cases h
        exact ⟨trivial, List.Subset.trans (subset_readExponent? hexponent) hsub'⟩
      · cases h
        exact ⟨trivial, hsub'⟩

theorem unsplit_readNumber {text rest : Text} {v : Value} (h : readNumber text = .ok (v, rest)) :
    v.Unsplit ∧ rest ⊆ text := by
  unfold readNumber at h
  split at h
  · rename_i c text
    split at h
    · have hn := unsplit_readMagnitude h
      exact ⟨hn.1, List.Subset.trans hn.2 (List.subset_cons_self c _)⟩
    · exact unsplit_readMagnitude h
  · cases h

theorem unsplit_readWord? {text rest : Text} {v : Value} (h : readWord? text = some (v, rest)) :
    v.Unsplit ∧ rest ⊆ text := by
  obtain ⟨⟨word, w⟩, hmem, h⟩ := List.exists_of_findSome?_eq_some h
  obtain ⟨behind, hbehind, h⟩ := Option.map_eq_some_iff.1 h
  cases h
  refine ⟨?_, ?_⟩
  · have hwords : ∀ e ∈ words, e.2.Unsplit := by simp [words, Value.Unsplit]
    exact hwords _ hmem
  · unfold afterWord? at hbehind
    split at hbehind
    · cases hbehind
      exact List.drop_subset _ _
    · cases hbehind

/-! ## Values -/

theorem subset_skipSpace (text : Text) : skipSpace text ⊆ text := List.dropWhile_subset _

/-- What stands behind white space and one code point. -/
theorem subset_of_skipSpace {text rest : Text} {c : CodePoint} (h : skipSpace text = c :: rest) : rest ⊆ text := by
  have hsub := subset_skipSpace text
  rw [h] at hsub
  exact List.Subset.trans (List.subset_cons_self c rest) hsub

mutual

/-- A value is read with its pairs whole, and what follows it is a part of what there was. -/
theorem unsplit_readValue : ∀ {levels fuel : Nat} {text rest : Text} {v : Value}, text.Plain →
    readValue levels fuel text = .ok (v, rest) → v.Unsplit ∧ rest ⊆ text
  | _, 0, [], _, _, _, h | _, _ + 1, [], _, _, _, h => by
    rw [readValue] at h
    cases h
  | _, 0, _ :: _, _, _, _, h => by
    rw [readValue] at h
    cases h
    exact List.cons_ne_nil _ _
  | levels, fuel + 1, c :: text, rest, v, hp, h => by
    have hp' := (List.forall_mem_cons.1 hp).2
    have hskip : ∀ {d : CodePoint} {text' : Text}, skipSpace text = d :: text' → d :: text' ⊆ c :: text := by
      intro d text' heq
      rw [← heq]
      exact List.Subset.trans (subset_skipSpace text) (List.subset_cons_self c _)
    rw [readValue] at h
    split at h
    · obtain ⟨⟨t, rest'⟩, ht, h⟩ := except_map_eq_ok.1 h
      cases h
      exact unsplit_readText hp ht
    · split at h
      · split at h
        · cases h
        · split at h
          · cases h
          · rename_i d text' heq
            have hsub := hskip heq
            split at h
            · cases h
              exact ⟨trivial, List.Subset.trans (List.subset_cons_self d _) hsub⟩
            · have hitems := unsplit_readItems (Plain.of_subset hp hsub) (fun _ hv => by cases hv) h
              exact ⟨hitems.1, List.Subset.trans hitems.2 hsub⟩
      · split at h
        · split at h
          · cases h
          · split at h
            · cases h
            · rename_i d text' heq
              have hsub := hskip heq
              split at h
              · cases h
                exact ⟨trivial, List.Subset.trans (List.subset_cons_self d _) hsub⟩
              · have hentries := unsplit_readEntries (Plain.of_subset hp hsub) (fun _ he => by cases he) h
                exact ⟨hentries.1, List.Subset.trans hentries.2 hsub⟩
        · split at h
          · rename_i found hfound
            cases h
            exact unsplit_readWord? hfound
          · exact unsplit_readNumber h

theorem unsplit_readItems : ∀ {levels fuel : Nat} {read : List Value} {text rest : Text} {v : Value}, text.Plain →
    (∀ v ∈ read, v.Unsplit) → readItems levels fuel read text = .ok (v, rest) → v.Unsplit ∧ rest ⊆ text
  | _, 0, _, _, _, _, _, _, h => by
    rw [readItems] at h
    cases h
  | levels, fuel + 1, read, text, rest, v, hp, hr, h => by
    rw [readItems] at h
    obtain ⟨⟨w, behind⟩, hw, h⟩ := except_bind_eq_ok.1 h
    obtain ⟨hunsplit, hsub⟩ := unsplit_readValue hp hw
    have hread : ∀ u ∈ w :: read, u.Unsplit := List.forall_mem_cons.2 ⟨hunsplit, hr⟩
    dsimp only at h
    split at h
    · cases h
    · rename_i d text' heq
      have hsub' := List.Subset.trans (subset_of_skipSpace heq) hsub
      split at h
      · cases h
        exact ⟨Value.itemsUnsplit_iff.2 fun u hu => hread u (List.mem_reverse.1 hu), hsub'⟩
      · split at h
        · have hskipped := List.Subset.trans (subset_skipSpace text') hsub'
          have hitems := unsplit_readItems (hp.of_subset hskipped) hread h
          exact ⟨hitems.1, List.Subset.trans hitems.2 hskipped⟩
        · cases h

theorem unsplit_readEntries : ∀ {levels fuel : Nat} {read : List (Key × Value)} {text rest : Text} {v : Value},
    text.Plain → (∀ e ∈ read, e.2.Unsplit) → readEntries levels fuel read text = .ok (v, rest) →
      v.Unsplit ∧ rest ⊆ text
  | _, 0, _, _, _, _, _, _, h => by
    rw [readEntries] at h
    cases h
  | levels, fuel + 1, read, text, rest, v, hp, hr, h => by
    rw [readEntries] at h
    split at h
    · cases h
    · obtain ⟨⟨name, behind⟩, hname, h⟩ := except_bind_eq_ok.1 h
      have hsub := (unsplit_readText hp hname).2
      dsimp only at h
      split at h
      · cases h
      · rename_i d text' heq
        have hsub' := List.Subset.trans (subset_of_skipSpace heq) hsub
        split at h
        · obtain ⟨⟨w, behind'⟩, hw, h⟩ := except_bind_eq_ok.1 h
          have hskipped := List.Subset.trans (subset_skipSpace text') hsub'
          obtain ⟨hunsplit, hbehind⟩ := unsplit_readValue (hp.of_subset hskipped) hw
          have hbehind := List.Subset.trans hbehind hskipped
          have hread : ∀ e ∈ Table.insert (.text name) w read, e.2.Unsplit := by
            intro e he
            rcases Table.mem_insert he with rfl | he
            · exact hunsplit
            · exact hr e he
          dsimp only at h
          split at h
          · cases h
          · rename_i d' text'' heq'
            have hsub'' := List.Subset.trans (subset_of_skipSpace heq') hbehind
            split at h
            · cases h
              exact ⟨Value.entriesUnsplit_iff.2 hread, hsub''⟩
            · split at h
              · have hskipped' := List.Subset.trans (subset_skipSpace text'') hsub''
                have hentries := unsplit_readEntries (hp.of_subset hskipped') hread h
                exact ⟨hentries.1, List.Subset.trans hentries.2 hskipped'⟩
              · cases h
        · cases h

end

/-- What a text without surrogates is read as has whole pairs. -/
theorem unsplit_readWithin {levels : Nat} {text : Text} {v : Value} (hp : text.Plain)
    (h : readWithin levels text = .ok v) : v.Unsplit := by
  unfold readWithin at h
  split at h
  · cases h
  · obtain ⟨⟨w, rest⟩, hw, h⟩ := except_bind_eq_ok.1 h
    have hunsplit := (unsplit_readValue (hp.of_subset (subset_skipSpace text)) hw).1
    dsimp only at h
    split at h
    · cases h
      exact hunsplit
    · cases h

/-! ## Documents -/

open CommandLine

theorem plain_unifyLineBreaks : ∀ {text : Text}, text.Plain → (unifyLineBreaks text).Plain
  | [], hp => hp
  | [c], hp => by
    unfold unifyLineBreaks
    split_ifs
    · exact List.forall_mem_singleton.2 (by decide)
    · exact hp
  | c :: d :: rest, hp => by
    obtain ⟨hc, hp⟩ := List.forall_mem_cons.1 hp
    obtain ⟨_, hrest⟩ := List.forall_mem_cons.1 hp
    unfold unifyLineBreaks
    split_ifs
    · exact List.forall_mem_cons.2 ⟨by decide, plain_unifyLineBreaks hrest⟩
    · exact List.forall_mem_cons.2 ⟨by decide, plain_unifyLineBreaks hp⟩
    · exact List.forall_mem_cons.2 ⟨hc, plain_unifyLineBreaks hp⟩

/-- A document that a file holds has whole pairs. -/
theorem unsplit_of_bytes {bytes : List UInt8} {levels : Nat} {v : Value}
    (h : (textOfFile bytes).bind (parseDocument levels) = .ok v) : v.Unsplit := by
  unfold textOfFile at h
  split at h
  · rename_i text hdecode
    have hp := plain_unifyLineBreaks (plain_decode hdecode)
    change parseDocument levels (unifyLineBreaks text) = .ok v at h
    unfold parseDocument at h
    split at h <;> cases h
    rename_i hread
    exact unsplit_readWithin hp hread
  · cases h

end ContractApi.Json
