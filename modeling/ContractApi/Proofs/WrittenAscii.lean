import ContractApi.Proofs.Surrogates
import ContractApi.Proofs.WrittenNumber
import ContractApi.Proofs.WrittenValue
/-!
# JSON text is ASCII

Whatever value is written, its text has ASCII code points alone in every layout of blanks (`ascii_write`): numbers have
digits and signs, other code points are escaped by digits, and white space is ASCII.
-/

namespace ContractApi

/-- Whether the text has ASCII code points alone. -/
def Text.Ascii (t : Text) : Prop := ∀ c ∈ t, c.val < 0x80

namespace Text

/-- Whether a text is ASCII can be told by looking at it. -/
instance (t : Text) : Decidable t.Ascii :=
  decidable_of_iff (t.all fun c => decide (c.val < 0x80)) (by simp [Ascii])

theorem ascii_nil : Ascii [] := fun _ h => absurd h List.not_mem_nil

theorem ascii_cons {c : CodePoint} {t : Text} (hc : c.val < 0x80) (ht : t.Ascii) : Ascii (c :: t) :=
  List.forall_mem_cons.2 ⟨hc, ht⟩

theorem Ascii.append {t u : Text} (ht : t.Ascii) (hu : u.Ascii) : (t ++ u).Ascii := List.forall_mem_append.2 ⟨ht, hu⟩

theorem ascii_flatMap {α : Type} {f : α → Text} {l : List α} (h : ∀ a ∈ l, (f a).Ascii) : Ascii (l.flatMap f) := by
  intro c hc
  obtain ⟨a, ha, hc⟩ := List.mem_flatMap.1 hc
  exact h a ha c hc

theorem ascii_joined {separator : Text} (hs : separator.Ascii) {ts : List Text} (h : ∀ t ∈ ts, t.Ascii) :
    (joined separator ts).Ascii := by
  induction ts with
  | nil => exact ascii_nil
  | cons t ts ih =>
    obtain ⟨ht, hts⟩ := List.forall_mem_cons.1 h
    cases ts with
    | nil => simpa [joined] using ht
    | cons u ts =>
      have hrest := ih hts
      simp only [joined, List.intercalate_cons_cons] at hrest ⊢
      exact (ht.append hs).append hrest

theorem ascii_of_isDigit {t : Text} (h : ∀ c ∈ t, c.isDigit = true) : t.Ascii := by
  intro c hc
  have hd := h c hc
  simp only [CodePoint.isDigit, Bool.and_eq_true, decide_eq_true_eq] at hd
  omega

theorem ascii_hex (width n : Nat) : (hex width n).Ascii := by
  have hall : ∀ d < 16, (CodePoint.hexDigit d).val < 0x80 := by decide
  intro c hc
  obtain ⟨i, _, rfl⟩ := List.mem_map.1 hc
  exact hall _ (Nat.mod_lt _ (by decide))

/-- What is ASCII holds no surrogate. -/
theorem Ascii.plain {t : Text} (h : t.Ascii) : t.Plain := by
  intro c hc
  have hlt := h c hc
  simp only [CodePoint.isSurrogate, Bool.and_eq_false_iff, decide_eq_false_iff_not]
  omega

end Text

namespace Json

theorem IsMagnitude.ascii {t : Text} (h : IsMagnitude t) : t.Ascii := by
  obtain ⟨whole, fraction, exponent, hw, hf, he, rfl⟩ := h
  refine ((Text.ascii_of_isDigit hw.1.2).append ?_).append ?_
  · rcases hf with rfl | ⟨digits, hd, rfl⟩
    · exact Text.ascii_nil
    · exact Text.Ascii.append (by decide) (Text.ascii_of_isDigit hd.2)
  · rcases he with rfl | ⟨letter, sign, digits, hl, hs, hd, rfl⟩
    · exact Text.ascii_nil
    · refine (Text.Ascii.append ?_ ?_).append (Text.ascii_of_isDigit hd.2)
      · rcases hl with rfl | rfl <;> decide
      · rcases hs with rfl | rfl | rfl <;> decide

theorem IsNumber.ascii {t : Text} (h : IsNumber t) : t.Ascii := by
  obtain ⟨magnitude, hm, rfl | rfl⟩ := h
  · exact hm.ascii
  · exact Text.Ascii.append (by decide) hm.ascii

theorem ascii_writeFloat (x : Binary64) : (writeFloat x).Ascii := by
  cases x with
  | finite negative m q => exact (isNumber_finite negative m q).ascii
  | infinity negative => cases negative <;> decide
  | nan => decide

theorem ascii_unitEscape (n : Nat) : (unitEscape n).Ascii := Text.Ascii.append (by decide) (Text.ascii_hex 4 n)

theorem ascii_letter {c : CodePoint} {letter : Char} (h : escapeLetter? c = some letter) :
    (CodePoint.ofChar letter).val < 0x80 := by
  unfold escapeLetter? at h
  split_ifs at h <;> cases h <;> decide

/-- A code point is written as itself only if it is ASCII. -/
theorem ascii_writePoint (c : CodePoint) : (writePoint c).Ascii := by
  unfold writePoint
  split
  · rename_i letter h
    exact Text.ascii_cons (by decide) (Text.ascii_cons (ascii_letter h) Text.ascii_nil)
  · split_ifs with hc
    · exact Text.ascii_cons (by omega) Text.ascii_nil
    · exact ascii_unitEscape _
    · exact (ascii_unitEscape _).append (ascii_unitEscape _)

theorem ascii_writeText (t : Text) : (writeText t).Ascii :=
  (Text.Ascii.append (by decide) (Text.ascii_flatMap fun c _ => ascii_writePoint c)).append (by decide)

theorem ascii_writeKey (k : Key) : (writeKey k).Ascii := by
  cases k <;> exact ascii_writeText _

theorem ascii_of_isSpace {t : Text} (h : ∀ c ∈ t, isSpace c = true) : t.Ascii := by
  intro c hc
  have hs := h c hc
  simp only [isSpace, decide_eq_true_eq] at hs
  rcases hs with rfl | rfl | rfl | rfl <;> decide

theorem ascii_bracketed {layout : Layout} (hb : layout.Blank) {opening closing : CodePoint} (ho : opening.val < 0x80)
    (hc : closing.val < 0x80) (depth : Nat) {items : List Text} (h : ∀ t ∈ items, t.Ascii) :
    (bracketed opening closing layout depth items).Ascii := by
  have hline := fun depth => ascii_of_isSpace (isSpace_lineBreak hb depth)
  obtain ⟨blank, heq, hblank⟩ := itemSeparator_eq hb (depth + 1)
  have hseparator : (itemSeparator (depth + 1) layout).Ascii := by
    rw [heq]
    exact Text.ascii_cons (by decide) (ascii_of_isSpace hblank)
  unfold bracketed
  split
  · exact Text.ascii_cons ho (Text.ascii_cons hc Text.ascii_nil)
  · refine Text.Ascii.append ?_ (Text.ascii_cons hc Text.ascii_nil)
    exact Text.ascii_cons ho (((hline (depth + 1)).append (Text.ascii_joined hseparator h)).append (hline depth))

mutual

theorem ascii_writeAt {layout : Layout} (hb : layout.Blank) : ∀ (v : Value) (depth : Nat), (writeAt layout depth v).Ascii
  | .null, _ => by
    rw [writeAt]
    decide
  | .bool b, _ => by
    rw [writeAt]
    cases b <;> decide
  | .int n, _ => by
    rw [writeAt]
    exact (isNumber_ofInt n).ascii
  | .float x, _ => by
    rw [writeAt]
    exact ascii_writeFloat x
  | .text t, _ => by
    rw [writeAt]
    exact ascii_writeText t
  | .list items, depth => by
    rw [writeAt]
    exact ascii_bracketed hb (by decide) (by decide) depth (ascii_writeItems hb items (depth + 1))
  | .object entries, depth => by
    rw [writeAt]
    exact ascii_bracketed hb (by decide) (by decide) depth (ascii_writeEntries hb entries (depth + 1))

theorem ascii_writeItems {layout : Layout} (hb : layout.Blank) : ∀ (items : List Value) (depth : Nat),
    ∀ t ∈ writeItems layout depth items, t.Ascii
  | [], _ => by
    rw [writeItems]
    exact List.forall_mem_nil _
  | v :: rest, depth => by
    rw [writeItems]
    exact List.forall_mem_cons.2 ⟨ascii_writeAt hb v depth, ascii_writeItems hb rest depth⟩

theorem ascii_writeEntries {layout : Layout} (hb : layout.Blank) : ∀ (entries : List (Key × Value)) (depth : Nat),
    ∀ t ∈ writeEntries layout depth entries, t.Ascii
  | [], _ => by
    rw [writeEntries]
    exact List.forall_mem_nil _
  | (key, v) :: rest, depth => by
    rw [writeEntries]
    have hentry := ((ascii_writeKey key).append (by decide : Text.Ascii ": ")).append (ascii_writeAt hb v depth)
    exact List.forall_mem_cons.2 ⟨hentry, ascii_writeEntries hb rest depth⟩

end

theorem ascii_write {layout : Layout} (hb : layout.Blank) (v : Value) : (write layout v).Ascii := ascii_writeAt hb v 0

end Json

end ContractApi
