import ContractApi.Json.Writer
import Mathlib.Data.Nat.Digits.Defs
/-!
# Numbers as they are written

A JSON number has digits in front of the point, of which the first is no zero unless it is the only one, and may have a
fraction and an exponent (`IsMagnitude`); a negative one has a minus sign.

- The digits of a natural number begin with no zero (`isWhole_ofNat`), so integers are written as numbers
  (`isNumber_ofInt`).
- The shortest decimal of a number that is not zero is not zero either (`shortest_pos`), so its digits can be laid out
  (`isMagnitude_layOut`), and floating-point numbers are written as numbers unless they are infinite or none
  (`isNumber_finite`).
-/

namespace ContractApi

namespace Json

/-! ## The form of numbers -/

/-- Whether the text consists of digits, and of at least one. -/
def IsDigitRun (t : Text) : Prop := t ≠ [] ∧ ∀ c ∈ t, c.isDigit = true

/-- Whether the text can stand in front of the point: zero, or digits that do not begin with a zero. -/
def IsWhole (t : Text) : Prop := IsDigitRun t ∧ (t.head? = some (CodePoint.ofChar '0') → t = "0")

/-- Whether the text is a fraction behind its point, or nothing. -/
def IsFraction (t : Text) : Prop := t = [] ∨ ∃ digits, IsDigitRun digits ∧ t = "." ++ digits

/-- Whether the text is an exponent with its letter and its sign, or nothing. -/
def IsExponent (t : Text) : Prop :=
  t = [] ∨ ∃ letter sign digits : Text, (letter = "e" ∨ letter = "E") ∧
    (sign = [] ∨ sign = "+" ∨ sign = "-") ∧ IsDigitRun digits ∧ t = letter ++ sign ++ digits

/-- Whether the text is a number without a sign. -/
def IsMagnitude (t : Text) : Prop :=
  ∃ whole fraction exponent, IsWhole whole ∧ IsFraction fraction ∧ IsExponent exponent ∧
    t = whole ++ fraction ++ exponent

/-- Whether the text is a number. -/
def IsNumber (t : Text) : Prop := ∃ magnitude, IsMagnitude magnitude ∧ (t = magnitude ∨ t = "-" ++ magnitude)

theorem IsDigitRun.append {t u : Text} (ht : ∀ c ∈ t, c.isDigit = true) (hu : IsDigitRun u) : IsDigitRun (t ++ u) :=
  ⟨List.append_ne_nil_of_right_ne_nil _ hu.1, List.forall_mem_append.2 ⟨ht, hu.2⟩⟩

theorem isDigit_zeros (n : Nat) : ∀ c ∈ List.replicate n (CodePoint.ofChar '0'), c.isDigit = true := by
  intro c hc
  rw [List.eq_of_mem_replicate hc]
  decide

/-- Digits can stand in front of the point, if nothing follows a zero that comes first. -/
theorem isWhole_cons {c : CodePoint} {t : Text} (hc : c.isDigit = true) (ht : ∀ d ∈ t, d.isDigit = true)
    (hz : c = .ofChar '0' → t = []) : IsWhole (c :: t) := by
  refine ⟨⟨List.cons_ne_nil _ _, List.forall_mem_cons.2 ⟨hc, ht⟩⟩, fun h => ?_⟩
  have hc : c = .ofChar '0' := Option.some.inj h
  rw [hz hc, hc]
  rfl

theorem isWhole_singleton {c : CodePoint} (h : c.isDigit = true) : IsWhole [c] :=
  isWhole_cons h (fun _ hd => absurd hd List.not_mem_nil) fun _ => rfl

/-! ## Integers -/

theorem isDigit_ofChar {c : Char} (h : c.isDigit = true) : (CodePoint.ofChar c).isDigit = true := by
  simp only [Char.isDigit, Bool.and_eq_true, decide_eq_true_eq, ge_iff_le, UInt32.le_iff_toNat_le] at h
  exact Bool.and_eq_true_iff.2 ⟨decide_eq_true h.1, decide_eq_true h.2⟩

/-- The decimal digits of a number that is not zero begin with another digit. -/
theorem head?_toDigits_ne {n : Nat} (h : 0 < n) : (Nat.toDigits 10 n).head? ≠ some '0' := by
  induction n using Nat.strong_induction_on with
  | _ n ih =>
    rw [Nat.toDigits_eq_if (by decide)]
    split
    · have hall : ∀ d, d < 10 → 0 < d → d.digitChar ≠ '0' := by decide
      rename_i hn
      exact fun hc => hall n hn h (Option.some.inj hc)
    · have hq : 0 < n / 10 := by omega
      rw [List.head?_append, Option.or_of_isSome (List.isSome_head?.2 Nat.toDigits_ne_nil)]
      exact ih (n / 10) (by omega) hq

theorem isDigitRun_ofNat (n : Nat) : IsDigitRun (Text.ofNat n) := by
  refine ⟨fun h => Nat.toDigits_ne_nil (List.map_eq_nil_iff.1 h), fun c hc => ?_⟩
  obtain ⟨d, hd, rfl⟩ := List.mem_map.1 hc
  exact isDigit_ofChar (Nat.isDigit_of_mem_toDigits (by decide) (by decide) hd)

theorem ofChar_inj {c d : Char} (h : CodePoint.ofChar c = CodePoint.ofChar d) : c = d := by
  have hval : c.toNat = d.toNat := congrArg (fun p : CodePoint => p.val) h
  exact Char.toNat_inj.1 hval

/-- The digits of a number that is not zero begin with no zero. -/
theorem head?_ofNat_ne {n : Nat} (h : 0 < n) : (Text.ofNat n).head? ≠ some (CodePoint.ofChar '0') := by
  rw [Text.ofNat, List.head?_map]
  intro hc
  obtain ⟨d, hd, heq⟩ := Option.map_eq_some_iff.1 hc
  rw [ofChar_inj heq] at hd
  exact head?_toDigits_ne h hd

theorem isWhole_ofNat (n : Nat) : IsWhole (Text.ofNat n) := by
  refine ⟨isDigitRun_ofNat n, fun hc => ?_⟩
  cases n with
  | zero => rfl
  | succ n => exact absurd hc (head?_ofNat_ne (Nat.succ_pos n))

theorem isMagnitude_of_isWhole {t : Text} (h : IsWhole t) : IsMagnitude t :=
  ⟨t, [], [], h, .inl rfl, .inl rfl, by simp⟩

theorem isNumber_ofInt : ∀ n : Int, IsNumber (Text.ofInt n)
  | .ofNat n => ⟨_, isMagnitude_of_isWhole (isWhole_ofNat n), .inl rfl⟩
  | .negSucc n => ⟨_, isMagnitude_of_isWhole (isWhole_ofNat (n + 1)), .inr rfl⟩

end Json

/-! ## Decimals -/

namespace Binary64

theorem twoTo_pos (n : Int) : 0 < twoTo n := Nat.pow_pos (by decide)

theorem tenTo_pos (n : Int) : 0 < tenTo n := Nat.pow_pos (by decide)

/-- Zero is read back as no other number. -/
theorem readsBack_zero {m : Nat} (hm : 0 < m) (q place : Int) : readsBack m q 0 place = false := by
  have hlow : ∀ below, 0 < below → compareScaled 0 place below (q - 2) = .lt := by
    intro below hb
    have hpos := Nat.mul_pos (Nat.mul_pos hb (twoTo_pos (q - 2))) (tenTo_pos (-place))
    rw [compareScaled, Nat.zero_mul, Nat.zero_mul]
    exact Nat.compare_eq_lt.2 hpos
  rw [readsBack]
  have hbelow : 0 < if m = leadingBit ∧ -1074 < q then 4 * m - 1 else 4 * m - 2 := by
    split <;> omega
  simp [hlow _ hbelow]

theorem le_roundQuotient (numerator denominator : Nat) : numerator / denominator ≤ roundQuotient numerator denominator := by
  simp only [roundQuotient]
  split <;> omega

/-- What reads back as a number that is not zero is not zero. -/
theorem neighbourAt?_pos {m digits : Nat} {q place : Int} (hm : 0 < m) (h : neighbourAt? m q place = some digits) :
    0 < digits := by
  have hlower : ∀ {n : Nat}, readsBack m q n place = true → 0 < n := by
    intro n hn
    refine Nat.pos_of_ne_zero fun h0 => ?_
    rw [h0, readsBack_zero hm] at hn
    cases hn
  simp only [neighbourAt?] at h
  split at h
  · rename_i hl _
    cases h
    exact Nat.lt_of_lt_of_le (hlower hl) (le_roundQuotient _ _)
  · rename_i hl _
    cases h
    exact hlower hl
  · cases h
    exact Nat.succ_pos _
  · cases h

theorem shortest_pos {m : Nat} (hm : 0 < m) (q : Int) : 0 < (shortest m q).1 := by
  simp only [shortest]
  generalize hfound : List.findSome? _ _ = found
  cases found with
  | none => exact Nat.mul_pos (Nat.mul_pos hm (twoTo_pos q)) (Nat.pow_pos (by decide))
  | some result =>
    obtain ⟨place, _, hplace⟩ := List.exists_of_findSome?_eq_some hfound
    obtain ⟨digits, hdigits, rfl⟩ := Option.map_eq_some_iff.1 hplace
    exact neighbourAt?_pos hm hdigits

end Binary64

/-! ## Floating-point numbers -/

namespace Json

open Binary64

/-- What is left of digits without the zeros at their end. -/
def withoutFinalZeros (t : Text) : Text := (t.reverse.dropWhile fun c : CodePoint => c = '0').reverse

/-- The first digit stays, if it is no zero. -/
theorem withoutFinalZeros_cons {c : CodePoint} (hc : c ≠ .ofChar '0') (t : Text) :
    withoutFinalZeros (c :: t) = c :: withoutFinalZeros t := by
  rw [withoutFinalZeros, withoutFinalZeros, List.reverse_cons, List.dropWhile_append]
  split
  · rename_i h
    rw [List.isEmpty_iff.1 h, List.dropWhile_cons_of_neg (by simpa using hc)]
    rfl
  · rw [List.reverse_concat]

theorem subset_withoutFinalZeros (t : Text) : ∀ c ∈ withoutFinalZeros t, c ∈ t := by
  intro c hc
  exact List.mem_reverse.1 ((List.dropWhile_sublist _).subset (List.mem_reverse.1 hc))

/-- The digits of a number that is not zero stay digits that begin with no zero. -/
theorem significant {n : Nat} (h : 0 < n) : IsDigitRun (withoutFinalZeros (Text.ofNat n)) ∧
    (withoutFinalZeros (Text.ofNat n)).head? ≠ some (CodePoint.ofChar '0') := by
  obtain ⟨hne, hdigits⟩ := isDigitRun_ofNat n
  have hhead := head?_ofNat_ne h
  cases ht : Text.ofNat n with
  | nil => exact absurd ht hne
  | cons c t =>
    rw [ht] at hdigits hhead
    have hc : c ≠ .ofChar '0' := fun h => hhead (congrArg some h)
    rw [withoutFinalZeros_cons hc]
    refine ⟨⟨List.cons_ne_nil _ _, List.forall_mem_cons.2 ⟨hdigits c List.mem_cons_self, fun d hd => ?_⟩⟩, ?_⟩
    · exact hdigits d (List.mem_cons_of_mem _ (subset_withoutFinalZeros t d hd))
    · exact fun h => hc (Option.some.inj h)

/-- Digits on both sides of a point. -/
theorem isMagnitude_point {whole fraction : Text} (hw : IsWhole whole) (hf : IsDigitRun fraction) :
    IsMagnitude (whole ++ "." ++ fraction) := by
  refine ⟨whole, "." ++ fraction, [], hw, .inr ⟨fraction, hf, rfl⟩, .inl rfl, ?_⟩
  rw [List.append_nil, List.append_assoc]

/-- One digit in front of the point, digits behind it if there are more, and an exponent. -/
theorem isMagnitude_scientific {c : CodePoint} {rest mark exponent : Text} (hc : c.isDigit = true)
    (hrest : ∀ d ∈ rest, d.isDigit = true) (hm : mark = "e+" ∨ mark = "e-") (he : IsDigitRun exponent) :
    IsMagnitude ([c] ++ (if (c :: rest).length ≤ 1 then [] else Text.ofString "." ++ rest) ++ mark ++ exponent) := by
  refine ⟨[c], _, mark ++ exponent, isWhole_singleton hc, ?_, .inr ?_, List.append_assoc _ _ _⟩
  · split
    · exact .inl rfl
    · rename_i hlength
      refine .inr ⟨rest, ⟨fun h => hlength ?_, hrest⟩, rfl⟩
      rw [h]
      exact Nat.le_refl 1
  · rcases hm with rfl | rfl
    · exact ⟨"e", "+", exponent, .inl rfl, .inr (.inl rfl), he, rfl⟩
    · exact ⟨"e", "-", exponent, .inl rfl, .inr (.inr rfl), he, rfl⟩

/-- Digits are laid out as a number, if they begin with no zero or are zero itself. -/
theorem isMagnitude_layOut {digits : Text} {lead : Int} (hd : IsDigitRun digits)
    (hz : digits.head? = some (CodePoint.ofChar '0') → digits = "0" ∧ lead = 0) :
    IsMagnitude (layOut true digits lead) := by
  obtain ⟨c, rest, rfl⟩ := List.exists_cons_of_ne_nil hd.1
  obtain ⟨hc, hrest⟩ := List.forall_mem_cons.1 hd.2
  have hzero : IsWhole "0" := isWhole_singleton (by decide)
  simp only [layOut, if_true]
  split
  · split
    · -- zero in front of the point, and zeros behind it
      have h := isMagnitude_point hzero (IsDigitRun.append (isDigit_zeros (-lead - 1).toNat) hd)
      rw [← List.append_assoc] at h
      exact h
    · -- zeros fill up the digits in front of the point
      have hwhole : IsWhole ((c :: rest).take (lead.toNat + 1) ++
          List.replicate (lead + 1 - (c :: rest).length).toNat (CodePoint.ofChar '0')) := by
        rw [List.take_succ_cons, List.cons_append]
        refine isWhole_cons hc (List.forall_mem_append.2 ⟨fun d hd => hrest d (List.mem_of_mem_take hd),
          isDigit_zeros _⟩) fun h => ?_
        obtain ⟨hdigits, hlead⟩ := hz (congrArg some h)
        obtain ⟨_, rfl⟩ := List.cons.inj hdigits
        rw [hlead]
        rfl
      split
      · have h := isMagnitude_point hwhole hzero.1
        rw [List.append_assoc] at h
        exact h
      · rename_i hne
        have hleft : ∀ d ∈ (c :: rest).drop (lead.toNat + 1), d.isDigit = true :=
          fun d hmem => hd.2 d (List.mem_of_mem_drop hmem)
        exact isMagnitude_point hwhole ⟨hne, hleft⟩
  · have hexponent := IsDigitRun.append (isDigit_zeros (2 - (Text.ofNat lead.natAbs).length : Int).toNat)
      (isDigitRun_ofNat lead.natAbs)
    have hmark : Text.ofString (if lead < 0 then "e-" else "e+") = "e+" ∨
        Text.ofString (if lead < 0 then "e-" else "e+") = "e-" := by
      split
      · exact .inr rfl
      · exact .inl rfl
    have h := isMagnitude_scientific hc hrest hmark hexponent
    rw [← List.append_assoc] at h
    exact h

theorem isMagnitude_magnitudeText (m : Nat) (q : Int) : IsMagnitude (magnitudeText true m q) := by
  rw [magnitudeText]
  split
  · refine isMagnitude_layOut ⟨List.cons_ne_nil _ _, List.forall_mem_singleton.2 (by decide)⟩ fun _ => ⟨rfl, rfl⟩
  · rename_i hm
    have hpos := shortest_pos (Nat.pos_of_ne_zero hm) q
    generalize shortest m q = decimal at hpos ⊢
    obtain ⟨digits, exponent⟩ := decimal
    obtain ⟨hd, hh⟩ := significant hpos
    exact isMagnitude_layOut hd fun h => absurd h hh

/-- A floating-point number is written as a number. -/
theorem isNumber_finite (negative : Bool) (m : Nat) (q : Int) : IsNumber (writeFloat (.finite negative m q)) := by
  refine ⟨_, isMagnitude_magnitudeText m q, ?_⟩
  cases negative with
  | true => exact .inr rfl
  | false => exact .inl rfl

end Json

end ContractApi
