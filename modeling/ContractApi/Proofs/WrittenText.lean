import ContractApi.Json.Reader
import ContractApi.Json.Writer
import Mathlib.Data.List.Chain
/-!
# Texts are read back

A code point is written as itself, behind a backslash, or by one or two escapes of sixteen bits (`writePoint_cases`).
Reading undoes this, but it takes two escapes for one code point if they give the halves of a surrogate pair. So a text is
read back if it is `Unsplit`: no half of a pair stands in front of the other (`readText_writeText`).
-/

namespace ContractApi

/-- Whether the first half of a surrogate pair is nowhere followed by the second half of one. -/
def Text.Unsplit (t : Text) : Prop :=
  t.IsChain fun c d => ¬(c.isHighSurrogate = true ∧ d.isLowSurrogate = true)

namespace Json

/-! ## Digits -/

theorem hexValue?_hexDigit : ∀ d, d < 16 → hexValue? (CodePoint.hexDigit d) = some d := by decide

theorem hexNumber?_hex {n : Nat} (h : n < 0x10000) : hexNumber? (Text.hex 4 n) = some n := by
  have hd (d : Nat) : hexValue? (CodePoint.hexDigit (d % 16)) = some (d % 16) :=
    hexValue?_hexDigit _ (Nat.mod_lt _ (by decide))
  have hhex : Text.hex 4 n = [.hexDigit (n / 4096 % 16), .hexDigit (n / 256 % 16), .hexDigit (n / 16 % 16),
      .hexDigit (n / 1 % 16)] := rfl
  simp only [hhex, hexNumber?, List.foldl_cons, List.foldl_nil, hd, Option.bind_eq_bind, Option.bind_some,
    Option.pure_def, Option.some.injEq]
  omega

theorem length_hex (width n : Nat) : (Text.hex width n).length = width := by
  rw [Text.hex, List.length_map, List.length_reverse, List.length_range]

theorem readUnit_hex {n : Nat} (h : n < 0x10000) {rest : Text} (hr : rest ≠ []) :
    readUnit (CodePoint.ofChar 'u' :: (Text.hex 4 n ++ rest)) = .ok (.ofNat n, rest) := by
  have htake : (Text.hex 4 n ++ rest).take 4 = Text.hex 4 n := List.take_left' (length_hex 4 n)
  have hdrop : (Text.hex 4 n ++ rest).drop 4 = rest := List.drop_left' (length_hex 4 n)
  have hne : rest.isEmpty = false := List.isEmpty_eq_false_iff.2 hr
  simp only [readUnit, List.drop_succ_cons, List.drop_zero, htake, hdrop, hne, hexNumber?_hex h]
  rfl

theorem ofNat_val (c : CodePoint) : CodePoint.ofNat c.val = c := Fin.ext (Nat.mod_eq_of_lt c.isLt)

theorem val_ofNat {n : Nat} (h : n < 0x110000) : (CodePoint.ofNat n).val = n := Nat.mod_eq_of_lt h

/-! ## Code points -/

/-- The first half of the surrogate pair of a code point above `U+FFFF`. -/
def highHalf (c : CodePoint) : Nat := 0xD800 + (c.val - 0x10000) / 0x400

/-- The second half of the surrogate pair of a code point above `U+FFFF`. -/
def lowHalf (c : CodePoint) : Nat := 0xDC00 + (c.val - 0x10000) % 0x400

theorem escapeLetter?_eq_some {c : CodePoint} {letter : Char} (h : escapeLetter? c = some letter) :
    CodePoint.ofChar letter ≠ .ofChar 'u' ∧ unescape? (.ofChar letter) = some c := by
  have hval {n : Nat} (hn : c.val = n) : c = .ofNat n := by rw [← hn, ofNat_val]
  unfold escapeLetter? at h
  split_ifs at h with hc hc hc hc hc hc hc <;> cases h
  · rw [hc]; decide
  · rw [hc]; decide
  · rw [hc]; decide
  · rw [hc]; decide
  · rw [hc]; decide
  · rw [hval hc]; decide
  · rw [hval hc]; decide

/-- The four ways in which a code point is written. -/
theorem writePoint_cases (c : CodePoint) :
    (∃ letter, writePoint c = [.ofChar '\\', letter] ∧ letter ≠ .ofChar 'u' ∧ unescape? letter = some c) ∨
    (writePoint c = [c] ∧ c ≠ .ofChar '"' ∧ c ≠ .ofChar '\\' ∧ 0x20 ≤ c.val) ∨
    (c.val < 0x10000 ∧ writePoint c = unitEscape c.val) ∨
    (0x10000 ≤ c.val ∧ writePoint c = unitEscape (highHalf c) ++ unitEscape (lowHalf c)) := by
  unfold writePoint
  split
  · rename_i letter h
    exact .inl ⟨letter, rfl, escapeLetter?_eq_some h⟩
  · rename_i h
    have hq : c ≠ .ofChar '"' := by
      rintro rfl
      cases h
    have hb : c ≠ .ofChar '\\' := by
      rintro rfl
      cases h
    split
    · rename_i hc
      exact .inr (.inl ⟨rfl, hq, hb, hc.1⟩)
    · split
      · rename_i hc
        exact .inr (.inr (.inl ⟨hc, rfl⟩))
      · rename_i hc
        exact .inr (.inr (.inr ⟨Nat.le_of_not_lt hc, rfl⟩))

theorem unitEscape_append (n : Nat) (rest : Text) :
    unitEscape n ++ rest = .ofChar '\\' :: .ofChar 'u' :: (Text.hex 4 n ++ rest) := rfl

theorem isLowSurrogate_ofNat {n : Nat} (h : n < 0x110000) :
    (CodePoint.ofNat n).isLowSurrogate = true ↔ 0xDC00 ≤ n ∧ n ≤ 0xDFFF := by
  simp only [CodePoint.isLowSurrogate, val_ofNat h, Bool.and_eq_true, decide_eq_true_eq]

theorem isHighSurrogate_ofNat {n : Nat} (h : n < 0x110000) :
    (CodePoint.ofNat n).isHighSurrogate = true ↔ 0xD800 ≤ n ∧ n ≤ 0xDBFF := by
  simp only [CodePoint.isHighSurrogate, val_ofNat h, Bool.and_eq_true, decide_eq_true_eq]

/-- The bounds of the halves of a pair. -/
theorem halves_bounds {c : CodePoint} (hc : 0x10000 ≤ c.val) :
    (0xD800 ≤ highHalf c ∧ highHalf c ≤ 0xDBFF) ∧ 0xDC00 ≤ lowHalf c ∧ lowHalf c ≤ 0xDFFF := by
  have hlt := c.isLt
  unfold highHalf lowHalf
  omega

theorem joinSurrogates_halves {c : CodePoint} (hc : 0x10000 ≤ c.val) :
    joinSurrogates (.ofNat (highHalf c)) (.ofNat (lowHalf c)) = c := by
  obtain ⟨⟨_, hh⟩, _, hl⟩ := halves_bounds hc
  have hlt := c.isLt
  rw [joinSurrogates, val_ofNat (by omega), val_ofNat (by omega)]
  have hsum : 0x10000 + (highHalf c - 0xD800) * 0x400 + (lowHalf c - 0xDC00) = c.val := by
    unfold highHalf lowHalf
    omega
  rw [hsum, ofNat_val]

/-! ## Escapes -/

/-- A text as it stands behind its opening quote, and what follows. -/
def quotedRest (t rest : Text) : Text := t.flatMap writePoint ++ .ofChar '"' :: rest

theorem quotedRest_ne_nil (t rest : Text) : quotedRest t rest ≠ [] :=
  List.append_ne_nil_of_right_ne_nil _ (List.cons_ne_nil _ _)

theorem quotedRest_cons (c : CodePoint) (t rest : Text) : quotedRest (c :: t) rest = writePoint c ++ quotedRest t rest := by
  rw [quotedRest, quotedRest, List.flatMap_cons, List.append_assoc]

/-- No escape begins with anything but a backslash and the letter. -/
theorem unitAhead?_eq_none {c d : CodePoint} (h : c ≠ .ofChar '\\' ∨ d ≠ .ofChar 'u') (rest : Text) :
    unitAhead? (c :: d :: rest) = none := by
  unfold unitAhead?
  exact if_neg fun hand => h.elim (fun hc => hc hand.1) fun hd => hd hand.2.1

theorem unitAhead?_unitEscape {n : Nat} {rest : Text} (hr : rest ≠ []) :
    unitAhead? (unitEscape n ++ rest) = some (.ofChar 'u' :: (Text.hex 4 n ++ rest)) := by
  have hdrop : (Text.hex 4 n ++ rest).drop 4 = rest := List.drop_left' (length_hex 4 n)
  rw [unitEscape_append]
  exact if_pos ⟨rfl, rfl, hdrop ▸ hr⟩

/-- An escape that follows gives no second half of a pair unless the next code point is one. -/
theorem readUnit_of_unitAhead? {t rest u : Text} (hl : ∀ c ∈ t.head?, c.isLowSurrogate = false)
    (h : unitAhead? (quotedRest t rest) = some u) : ∃ d r, readUnit u = .ok (d, r) ∧ d.isLowSurrogate = false := by
  cases t with
  | nil =>
    cases rest with
    | nil => cases h
    | cons d rest => cases (unitAhead?_eq_none (.inl (by decide)) rest).symm.trans h
  | cons c t =>
    have hc := hl c rfl
    have hne := quotedRest_ne_nil t rest
    rw [quotedRest_cons] at h
    obtain ⟨letter, hw, hu, _⟩ | ⟨hw, _, hb, _⟩ | ⟨hlt, hw⟩ | ⟨hge, hw⟩ := writePoint_cases c
    · rw [hw] at h
      cases (unitAhead?_eq_none (.inr hu) _).symm.trans h
    · obtain ⟨d, more, hmore⟩ := List.exists_cons_of_ne_nil hne
      rw [hw, hmore] at h
      cases (unitAhead?_eq_none (.inl hb) more).symm.trans h
    · rw [hw] at h
      cases (unitAhead?_unitEscape hne).symm.trans h
      exact ⟨_, _, readUnit_hex hlt hne, by rwa [ofNat_val]⟩
    · rw [hw, List.append_assoc] at h
      have hne' : unitEscape (lowHalf c) ++ quotedRest t rest ≠ [] := List.cons_ne_nil _ _
      cases (unitAhead?_unitEscape hne').symm.trans h
      obtain ⟨⟨_, hh⟩, _⟩ := halves_bounds hge
      refine ⟨_, _, readUnit_hex (by omega) hne', Bool.eq_false_iff.2 fun hlow => ?_⟩
      have hbounds := (isLowSurrogate_ofNat (by omega)).1 hlow
      omega

theorem readUnicode_eq {u rest : Text} {c : CodePoint} (h : readUnit u = .ok (c, rest)) : readUnicode u =
    if c.isHighSurrogate then
      match unitAhead? rest with
      | some u' => do
        let (d, rest') ← readUnit u'
        if d.isLowSurrogate then return (joinSurrogates c d, rest') else return (c, rest)
      | none => .ok (c, rest)
    else .ok (c, rest) := by
  rw [readUnicode, h]
  rfl

/-- The escape of a code point is read back if the code point does not form a pair with the next one. -/
theorem readUnicode_unit {c : CodePoint} (hc : c.val < 0x10000) {t : Text} (h : Text.Unsplit (c :: t)) (rest : Text) :
    readUnicode (.ofChar 'u' :: (Text.hex 4 c.val ++ quotedRest t rest)) = .ok (c, quotedRest t rest) := by
  have hunit := readUnit_hex hc (quotedRest_ne_nil t rest)
  rw [ofNat_val] at hunit
  rw [readUnicode_eq hunit]
  by_cases hhigh : c.isHighSurrogate = true
  · rw [if_pos hhigh]
    cases hu : unitAhead? (quotedRest t rest) with
    | none => rfl
    | some u =>
      have hl : ∀ d ∈ t.head?, d.isLowSurrogate = false := by
        intro d hd
        have hnot := (List.isChain_cons.1 h).1 d hd
        exact Bool.eq_false_iff.2 fun hlow => hnot ⟨hhigh, hlow⟩
      obtain ⟨d, r, hd, hlow⟩ := readUnit_of_unitAhead? hl hu
      simp only [hd, bind, Except.bind, hlow]
      rfl
  · rw [if_neg hhigh]

/-- The two escapes of a code point above `U+FFFF` are read as one. -/
theorem readUnicode_pair {c : CodePoint} (hc : 0x10000 ≤ c.val) {rest : Text} (hr : rest ≠ []) :
    readUnicode (.ofChar 'u' :: (Text.hex 4 (highHalf c) ++ (unitEscape (lowHalf c) ++ rest))) = .ok (c, rest) := by
  obtain ⟨⟨hh, hh'⟩, hl, hl'⟩ := halves_bounds hc
  have hne : unitEscape (lowHalf c) ++ rest ≠ [] := List.cons_ne_nil _ _
  have hhigh := (isHighSurrogate_ofNat (by omega)).2 ⟨hh, hh'⟩
  have hlow := (isLowSurrogate_ofNat (by omega)).2 ⟨hl, hl'⟩
  have hfirst := readUnit_hex (n := highHalf c) (by omega) hne
  have hsecond := readUnit_hex (n := lowHalf c) (by omega) hr
  rw [readUnicode_eq hfirst, if_pos hhigh, unitAhead?_unitEscape hr]
  simp only [hsecond, bind, Except.bind, hlow, if_true, joinSurrogates_halves hc]
  rfl

/-! ## Texts -/

section Steps

variable (opening : Text) (fuel : Nat) (read : Text)

theorem readTextFrom_plain {c : CodePoint} (hq : c ≠ .ofChar '"') (hb : c ≠ .ofChar '\\') (hc : 0x20 ≤ c.val)
    (rest : Text) : readTextFrom opening (fuel + 1) read (c :: rest) = readTextFrom opening fuel (c :: read) rest := by
  rw [readTextFrom.eq_def]
  simp only [if_neg hq, if_neg hb, if_neg (Nat.not_lt.2 hc)]

theorem readTextFrom_letter {c letter : CodePoint} (hu : letter ≠ .ofChar 'u') (h : unescape? letter = some c)
    (rest : Text) : readTextFrom opening (fuel + 1) read (.ofChar '\\' :: letter :: rest) =
      readTextFrom opening fuel (c :: read) rest := by
  have hq : CodePoint.ofChar '\\' ≠ .ofChar '"' := by decide
  rw [readTextFrom.eq_def]
  simp only [if_neg hq, if_true, if_neg hu, h]

theorem readTextFrom_unicode {c : CodePoint} {more rest : Text}
    (h : readUnicode (.ofChar 'u' :: more) = .ok (c, rest)) :
    readTextFrom opening (fuel + 1) read (.ofChar '\\' :: .ofChar 'u' :: more) =
      readTextFrom opening fuel (c :: read) rest := by
  have hq : CodePoint.ofChar '\\' ≠ .ofChar '"' := by decide
  rw [readTextFrom.eq_def]
  simp only [if_neg hq, if_true, h]
  rfl

end Steps

/-- A text is read back from behind its opening quote, in as many steps as it has code points and one more. -/
theorem readTextFrom_quotedRest (opening rest : Text) : ∀ {t : Text}, t.Unsplit → ∀ {fuel : Nat} (read : Text),
    t.length < fuel → readTextFrom opening fuel read (quotedRest t rest) = .ok (read.reverse ++ t, rest)
  | t, _, 0, _, hf => by omega
  | [], _, fuel + 1, read, _ => by
    rw [List.append_nil]
    exact if_pos rfl
  | c :: t, h, fuel + 1, read, hf => by
    have ih := readTextFrom_quotedRest opening rest (List.IsChain.tail h) (c :: read) (Nat.lt_of_succ_lt_succ hf)
    rw [List.reverse_cons, List.append_assoc, List.tail_cons] at ih
    rw [quotedRest_cons]
    obtain ⟨letter, hw, hu, hletter⟩ | ⟨hw, hq, hb, hc⟩ | ⟨hlt, hw⟩ | ⟨hge, hw⟩ := writePoint_cases c
    · rw [hw]
      exact (readTextFrom_letter opening fuel read hu hletter _).trans ih
    · rw [hw]
      exact (readTextFrom_plain opening fuel read hq hb hc _).trans ih
    · rw [hw, unitEscape_append]
      exact (readTextFrom_unicode opening fuel read (readUnicode_unit hlt h rest)).trans ih
    · rw [hw, List.append_assoc, unitEscape_append]
      exact (readTextFrom_unicode opening fuel read (readUnicode_pair hge (quotedRest_ne_nil t rest))).trans ih

theorem writeText_append (t rest : Text) : writeText t ++ rest = .ofChar '"' :: quotedRest t rest := by
  simp only [writeText, quotedRest, List.append_assoc]
  rfl

theorem length_writePoint_pos (c : CodePoint) : 0 < (writePoint c).length := by
  obtain ⟨_, hw, _⟩ | ⟨hw, _⟩ | ⟨_, hw⟩ | ⟨_, hw⟩ := writePoint_cases c <;> rw [hw] <;> exact Nat.succ_pos _

theorem length_lt_writeText (t : Text) : t.length < (writeText t).length := by
  have hpoints : t.length ≤ (t.flatMap writePoint).length := by
    induction t with
    | nil => exact Nat.le_refl 0
    | cons c t ih =>
      have hc := length_writePoint_pos c
      simp only [List.flatMap_cons, List.length_append, List.length_cons]
      omega
  have hquote : (Text.ofString "\"").length = 1 := rfl
  simp only [writeText, List.length_append, hquote]
  omega

/-- A text is read back with its quotes. -/
theorem readText_writeText {t : Text} (h : t.Unsplit) {fuel : Nat} (hf : t.length < fuel) (rest : Text) :
    readText fuel (writeText t ++ rest) = .ok (t, rest) := by
  rw [writeText_append, readText, List.drop_succ_cons, List.drop_zero]
  exact readTextFrom_quotedRest _ rest h [] hf

end Json

end ContractApi
