import ContractApi.Schema.OfType
import Mathlib.Data.List.Basic
import Mathlib.Data.List.TakeWhile
/-!
# How types are spelled

The rules by which a type is told from its spelling, and that the functions which take spellings apart follow them.

- `IsArrayOf`: a type is that of an array if a pair of brackets, with ASCII digits or nothing in between, follows the
  type of its items. `itemType?` finds the items' type exactly if there is one (`itemType?_eq_some`).
- `IsSized` and `IsElementary` say which types are neither arrays nor tuples, and how they are described. `ofElementary`
  gives that description, and an unknown one where there is none (`ofElementary_of_isElementary`,
  `ofElementary_of_not_isElementary`).
-/

namespace ContractApi.Schema

/-! ## The end of a type -/

/-- Whether the text may stand behind a type without being part of it: it is empty, or one line feed. -/
def IsEnding (t : Text) : Prop := t = [] ∨ t = "\n"

/-- Every type is what is left of it without a final line feed, and an ending. -/
theorem exists_ending (type : Text) : ∃ ending, IsEnding ending ∧ type = dropFinalLineFeed type ++ ending := by
  unfold dropFinalLineFeed
  by_cases h : type.getLast? = some (CodePoint.ofChar '\n')
  · rw [if_pos h]
    refine ⟨"\n", .inr rfl, ?_⟩
    exact (List.dropLast_append_getLast? _ h).symm
  · rw [if_neg h]
    exact ⟨[], .inl rfl, (List.append_nil type).symm⟩

/-- An ending is all that is dropped, unless a line feed stands before it. -/
theorem dropFinalLineFeed_append {t ending : Text} (ht : t.getLast? ≠ some (CodePoint.ofChar '\n'))
    (he : IsEnding ending) : dropFinalLineFeed (t ++ ending) = t := by
  rcases he with rfl | rfl
  · rw [List.append_nil, dropFinalLineFeed, if_neg ht]
  · have hl : (t ++ Text.ofString "\n").getLast? = some (CodePoint.ofChar '\n') := List.getLast?_concat
    rw [dropFinalLineFeed, if_pos hl]
    exact List.dropLast_concat

/-! ## Arrays -/

/-- Whether the text holds nothing but ASCII digits, of which there may be none. -/
def IsDigits (t : Text) : Prop := ∀ c ∈ t, c.isDigit = true

/-- Whether the type is that of an array, of any or of a given length, with items of the type `base`. -/
def IsArrayOf (type base : Text) : Prop := ∃ digits ending, IsDigits digits ∧ IsEnding ending ∧
  CodePoint.ofChar '\n' ∉ base ∧ type = base ++ "[" ++ digits ++ "]" ++ ending

theorem dropFinalLineFeed_brackets {base digits ending : Text} (he : IsEnding ending) :
    dropFinalLineFeed (base ++ "[" ++ digits ++ "]" ++ ending) = base ++ "[" ++ digits ++ "]" := by
  refine dropFinalLineFeed_append ?_ he
  have hl : (base ++ Text.ofString "[" ++ digits ++ Text.ofString "]").getLast? = some (CodePoint.ofChar ']') :=
    List.getLast?_concat
  rw [hl]
  decide

theorem isArrayOf_of_itemType? {type base : Text} (h : itemType? type = some base) : IsArrayOf type base := by
  obtain ⟨ending, he, htype⟩ := exists_ending type
  unfold itemType? at h
  split at h
  · rename_i close inner hr
    split at h
    · rename_i opening rest hd
      split at h
      · rename_i hc
        obtain ⟨rfl, rfl, hn⟩ := hc
        cases h
        -- what was passed over from the end is the closing bracket and the digits
        have hinner : inner.takeWhile CodePoint.isDigit ++ CodePoint.ofChar '[' :: rest = inner := by
          rw [← hd]
          exact List.takeWhile_append_dropWhile
        have hdropped : dropFinalLineFeed type =
            rest.reverse ++ "[" ++ (inner.takeWhile CodePoint.isDigit).reverse ++ "]" := by
          calc dropFinalLineFeed type = (CodePoint.ofChar ']' :: inner).reverse := by rw [← hr, List.reverse_reverse]
            _ = (CodePoint.ofChar ']' ::
                (inner.takeWhile CodePoint.isDigit ++ CodePoint.ofChar '[' :: rest)).reverse := by rw [hinner]
            _ = _ := by simp [Text.ofString]
        refine ⟨(inner.takeWhile CodePoint.isDigit).reverse, ending, ?_, he, ?_, ?_⟩
        · intro c hc
          exact List.mem_takeWhile_imp (List.mem_reverse.1 hc)
        · intro hmem
          rw [List.mem_reverse] at hmem
          simp [hmem] at hn
        · rw [← hdropped]
          exact htype
      · cases h
    · cases h
  · cases h

theorem itemType?_of_isArrayOf {type base : Text} (h : IsArrayOf type base) : itemType? type = some base := by
  obtain ⟨digits, ending, hd, he, hn, rfl⟩ := h
  have hr : (base ++ Text.ofString "[" ++ digits ++ Text.ofString "]").reverse =
      CodePoint.ofChar ']' :: (digits.reverse ++ CodePoint.ofChar '[' :: base.reverse) := by
    simp [Text.ofString]
  have hw : (digits.reverse ++ CodePoint.ofChar '[' :: base.reverse).dropWhile CodePoint.isDigit =
      CodePoint.ofChar '[' :: base.reverse := by
    rw [List.dropWhile_append_of_pos fun c hc => hd c (List.mem_reverse.1 hc)]
    rfl
  unfold itemType?
  rw [dropFinalLineFeed_brackets he, hr]
  simp only [hw]
  rw [if_pos ⟨trivial, trivial, by simpa using hn⟩, List.reverse_reverse]

/-- The type of an array's items is found exactly if there is one: it stands before the last pair of brackets. -/
theorem itemType?_eq_some {type base : Text} : itemType? type = some base ↔ IsArrayOf type base :=
  ⟨isArrayOf_of_itemType?, itemType?_of_isArrayOf⟩

theorem itemType?_eq_none {type : Text} : itemType? type = none ↔ ∀ base, ¬IsArrayOf type base := by
  rw [Option.eq_none_iff_forall_ne_some]
  exact forall_congr' fun base => not_congr itemType?_eq_some

theorem IsArrayOf.base_inj {type base base' : Text} (h : IsArrayOf type base) (h' : IsArrayOf type base') :
    base = base' :=
  Option.some.inj ((itemType?_eq_some.2 h).symm.trans (itemType?_eq_some.2 h'))

theorem IsArrayOf.length_lt {type base : Text} (h : IsArrayOf type base) : base.length < type.length := by
  obtain ⟨digits, ending, _, _, _, rfl⟩ := h
  simp only [List.length_append]
  have : (Text.ofString "[").length = 1 := rfl
  omega

theorem IsArrayOf.ne_tuple {type base : Text} (h : IsArrayOf type base) : type ≠ "tuple" := by
  rintro rfl
  have hnone : itemType? "tuple" = none := rfl
  exact itemType?_eq_none.1 hnone base h

/-- An array is described by its items. -/
theorem ofTypeWithin_array {type base : Text} (h : IsArrayOf type base) (levels : Nat) (members : Members) :
    ofTypeWithin (levels + 1) (.text type) members =
      ofTypeWithin levels (.text base) members >>= fun items => pure (.array items) := by
  rw [ofTypeWithin, if_neg h.ne_tuple, itemType?_eq_some.2 h]

/-- The type of arrays of any length, nested some number of levels deep. -/
def nested : Nat → Text → Text
  | 0, base => base
  | levels + 1, base => nested levels base ++ "[]"

theorem isArrayOf_nested {base : Text} (h : CodePoint.ofChar '\n' ∉ base) (levels : Nat) :
    IsArrayOf (nested (levels + 1) base) (nested levels base) := by
  have hn : CodePoint.ofChar '\n' ∉ nested levels base := by
    induction levels with
    | zero => exact h
    | succ levels ih =>
      intro hmem
      rcases List.mem_append.1 hmem with hmem | hmem
      · exact ih hmem
      · exact absurd hmem (by decide)
  refine ⟨[], [], fun c hc => absurd hc List.not_mem_nil, .inl rfl, hn, ?_⟩
  simp only [nested, List.append_nil, List.append_assoc]
  rfl

/-! ## Other types -/

/-- Whether the type is the word with ASCII digits behind it, of which there may be none. -/
def IsSized (word type : Text) : Prop := ∃ digits ending, IsDigits digits ∧ IsEnding ending ∧
  type = word ++ digits ++ ending

/-- How the types that are neither arrays nor tuples are described. -/
inductive IsElementary : Text → Schema → Prop
  | integer {type : Text} (h : IsSized "int" type ∨ IsSized "uint" type) : IsElementary type (.integer type)
  | boolean : IsElementary "bool" .boolean
  | address : IsElementary "address" .address
  | string : IsElementary "string" .string
  | bytes {type : Text} (h : IsSized "bytes" type) : IsElementary type (.bytes type)

/-- No word of a sized type ends in a line feed, and neither do digits. -/
theorem dropFinalLineFeed_sized {word digits ending : Text} (hw : CodePoint.ofChar '\n' ∉ word) (hd : IsDigits digits)
    (he : IsEnding ending) : dropFinalLineFeed (word ++ digits ++ ending) = word ++ digits := by
  refine dropFinalLineFeed_append (fun h => ?_) he
  rcases List.mem_append.1 (List.mem_of_getLast? h) with h | h
  · exact hw h
  · exact absurd (hd _ h) (by decide)

theorem isSized_iff {word type : Text} (hw : CodePoint.ofChar '\n' ∉ word) :
    isSized word type = true ↔ IsSized word type := by
  constructor
  · intro h
    obtain ⟨ending, he, htype⟩ := exists_ending type
    simp only [isSized, Bool.and_eq_true, List.isPrefixOf_iff_prefix, List.all_eq_true] at h
    obtain ⟨⟨digits, hp⟩, hd⟩ := h
    rw [← hp, List.drop_left] at hd
    exact ⟨digits, ending, hd, he, by rw [hp]; exact htype⟩
  · rintro ⟨digits, ending, hd, he, rfl⟩
    simp only [isSized, dropFinalLineFeed_sized hw hd he, Bool.and_eq_true, List.isPrefixOf_iff_prefix,
      List.all_eq_true, List.drop_left]
    exact ⟨List.prefix_append _ _, hd⟩

/-- A type that begins with a word which neither is the beginning of another word nor has that as its own is no sized
type of the other word. -/
theorem isSized_eq_false {word other type : Text} (h : IsSized word type) (hw : CodePoint.ofChar '\n' ∉ word)
    (ho : ∀ digits, other.isPrefixOf (word ++ digits) = false) : isSized other type = false := by
  obtain ⟨digits, ending, hd, he, rfl⟩ := h
  simp only [isSized, dropFinalLineFeed_sized hw hd he, ho, Bool.false_and]

theorem isInteger_iff {type : Text} : (isSized "int" type || isSized "uint" type) = true ↔
    IsSized "int" type ∨ IsSized "uint" type := by
  rw [Bool.or_eq_true, isSized_iff (by decide), isSized_iff (by decide)]

/-- Types of byte sequences are told from all others by how they begin. -/
theorem ofElementary_bytes {type : Text} (h : IsSized "bytes" type) : ofElementary type = .bytes type := by
  have hi : isSized "int" type = false := isSized_eq_false h (by decide) fun _ => rfl
  have hu : isSized "uint" type = false := isSized_eq_false h (by decide) fun _ => rfl
  have hb : isSized "bytes" type = true := (isSized_iff (by decide)).2 h
  have hstart : type.take 2 = Text.ofString "by" := by
    obtain ⟨digits, ending, _, _, rfl⟩ := h
    rfl
  have hne : ∀ other : Text, other.take 2 ≠ Text.ofString "by" → type ≠ other := by
    rintro _ hother rfl
    exact hother hstart
  rw [ofElementary, hi, hu, hb, if_neg (by decide), if_neg (hne _ (by decide)), if_neg (hne _ (by decide)),
    if_neg (hne _ (by decide)), if_pos rfl]

/-- What has a description gets it. -/
theorem ofElementary_of_isElementary {type : Text} {s : Schema} (h : IsElementary type s) : ofElementary type = s := by
  cases h with
  | integer h => rw [ofElementary, if_pos (isInteger_iff.2 h)]
  | boolean => rfl
  | address => rfl
  | string => rfl
  | bytes h => exact ofElementary_bytes h

/-- What has no description is unknown. -/
theorem ofElementary_of_not_isElementary {type : Text} (h : ∀ s, ¬IsElementary type s) :
    ofElementary type = .unknown (.text type) := by
  unfold ofElementary
  rw [if_neg, if_neg, if_neg, if_neg, if_neg]
  · exact fun hb => h _ (.bytes ((isSized_iff (by decide)).1 hb))
  · rintro rfl
    exact h _ .string
  · rintro rfl
    exact h _ .address
  · rintro rfl
    exact h _ .boolean
  · exact fun hi => h _ (.integer (isInteger_iff.1 hi))

theorem IsElementary.schema_inj {type : Text} {s s' : Schema} (h : IsElementary type s) (h' : IsElementary type s') :
    s = s' :=
  (ofElementary_of_isElementary h).symm.trans (ofElementary_of_isElementary h')

end ContractApi.Schema
