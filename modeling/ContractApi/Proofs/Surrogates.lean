import ContractApi.Abi.Signature
import ContractApi.Proofs.Outcome
import ContractApi.Proofs.Table
import ContractApi.Value.Display
import Mathlib.Algebra.Group.Nat.Defs
import Mathlib.Data.List.SplitBy
/-!
# Texts without surrogates

A text is `Plain` if it holds no surrogate; exactly such texts have a hash (`returns_signatureHash`), and what bytes
encode is such a text (`plain_decode`).

- Strings, numerals and quoted texts are plain (`plain_ofString`, `plain_ofNat`, `plain_quoted`), since no surrogate is
  printable (`isSurrogate_of_isPrintable`).
- What a plain value displays is plain (`plain_display`), and so are the canonical types of plain parameters
  (`plain_canonicalType`).
-/

namespace ContractApi

/-! ## Code points -/

theorem CodePoint.isSurrogate_ofChar (c : Char) : (ofChar c).isSurrogate = false := by
  have h := c.valid
  simp only [UInt32.isValidChar, Nat.isValidChar] at h
  change (decide (0xD800 ≤ c.val.toNat) && decide (c.val.toNat ≤ 0xDFFF)) = false
  rw [← Bool.decide_and, decide_eq_false_iff_not]
  omega

namespace Text

/-- Whether one of the ranges holds all the numbers from one to another, and is reached by a search for each of them. -/
def covers (low high : Nat) : List (Nat × Nat) → Bool
  | [] => false
  | (first, last) :: rest => first ≤ low && (high ≤ last || (last < low && covers low high rest))

theorem inRanges_of_covers {low high n : Nat} (hl : low ≤ n) (hh : n ≤ high) : ∀ {ranges : List (Nat × Nat)},
    covers low high ranges = true → inRanges ranges n = true
  | [], h => by cases h
  | (first, last) :: rest, h => by
    simp only [covers, Bool.and_eq_true, Bool.or_eq_true, decide_eq_true_eq] at h
    obtain ⟨hf, h⟩ := h
    rw [inRanges, if_neg (by omega)]
    rcases h with h | ⟨h, hr⟩
    · rw [if_pos (by omega)]
    · rw [if_neg (by omega)]
      exact inRanges_of_covers hl hh hr

end Text

/-- No surrogate is printable. -/
theorem CodePoint.isSurrogate_of_isPrintable {c : CodePoint} (h : c.isPrintable = true) : c.isSurrogate = false := by
  cases hs : c.isSurrogate with
  | false => rfl
  | true =>
    simp only [isSurrogate, Bool.and_eq_true, decide_eq_true_eq] at hs
    have hc : Text.covers 0xD800 0xDFFF Text.unprintableRanges = true := by decide +kernel
    rw [isPrintable, Text.inRanges_of_covers hs.1 hs.2 hc] at h
    cases h

theorem CodePoint.isSurrogate_hexDigit {d : Nat} (h : d < 16) : (hexDigit d).isSurrogate = false := by
  revert h
  revert d
  decide

/-! ## Plain texts -/

namespace Text

/-- Whether the text holds no surrogate. -/
def Plain (t : Text) : Prop := ∀ c ∈ t, c.isSurrogate = false

theorem plain_nil : Plain [] := fun _ h => absurd h List.not_mem_nil

theorem plain_cons {c : CodePoint} {t : Text} (hc : c.isSurrogate = false) (ht : t.Plain) : Plain (c :: t) :=
  List.forall_mem_cons.2 ⟨hc, ht⟩

theorem Plain.append {t u : Text} (ht : t.Plain) (hu : u.Plain) : (t ++ u).Plain :=
  List.forall_mem_append.2 ⟨ht, hu⟩

theorem Plain.of_subset {t u : Text} (hu : u.Plain) (h : t ⊆ u) : t.Plain := fun c hc => hu c (h hc)

theorem plain_flatMap {α : Type} {f : α → Text} {l : List α} (h : ∀ a ∈ l, (f a).Plain) : Plain (l.flatMap f) := by
  intro c hc
  obtain ⟨a, ha, hc⟩ := List.mem_flatMap.1 hc
  exact h a ha c hc

theorem plain_joined {separator : Text} (hs : separator.Plain) : ∀ {ts : List Text}, (∀ t ∈ ts, t.Plain) →
    (joined separator ts).Plain
  | [], _ => plain_nil
  | [t], h => by
    simp only [joined, List.intercalate_singleton]
    exact h t List.mem_cons_self
  | t :: u :: ts, h => by
    have ih := plain_joined hs fun v hv => h v (List.mem_cons_of_mem t hv)
    simp only [joined, List.intercalate_cons_cons] at ih ⊢
    exact ((h t List.mem_cons_self).append hs).append ih

theorem plain_map_ofChar (l : List Char) : Plain (l.map CodePoint.ofChar) := by
  intro c hc
  obtain ⟨d, _, rfl⟩ := List.mem_map.1 hc
  exact CodePoint.isSurrogate_ofChar d

theorem plain_ofString (s : String) : Plain (ofString s) := plain_map_ofChar s.toList

theorem plain_ofNat (n : Nat) : (ofNat n).Plain := plain_map_ofChar _

theorem plain_ofInt (n : Int) : (ofInt n).Plain := by
  cases n with
  | ofNat n => exact plain_ofNat n
  | negSucc n => exact plain_cons (CodePoint.isSurrogate_ofChar _) (plain_ofNat _)

theorem plain_ofBool (b : Bool) : (ofBool b).Plain := by
  cases b <;> exact plain_ofString _

theorem plain_dropWhile {t : Text} (h : t.Plain) (p : CodePoint → Bool) : Plain (t.reverse.dropWhile p).reverse := by
  intro c hc
  have hd := List.dropWhile_subset p (List.mem_reverse.1 hc)
  exact h c (List.mem_reverse.1 hd)

theorem plain_replicate (n : Nat) (c : Char) : Plain (List.replicate n (CodePoint.ofChar c)) := by
  intro d hd
  rw [List.eq_of_mem_replicate hd]
  exact CodePoint.isSurrogate_ofChar c

theorem plain_hex (width n : Nat) : (hex width n).Plain := by
  intro c hc
  obtain ⟨i, _, rfl⟩ := List.mem_map.1 hc
  exact CodePoint.isSurrogate_hexDigit (Nat.mod_lt _ (by decide))

/-- A quoted text is plain, whatever it quotes. -/
theorem plain_quoted (t : Text) : t.quoted.Plain := by
  have hquote : t.quoteFor.isSurrogate = false := by
    unfold quoteFor
    split <;> exact CodePoint.isSurrogate_ofChar _
  have hpoint : ∀ c ∈ t, (quotedPoint t.quoteFor c).Plain := by
    intro c _
    unfold quotedPoint
    split
    · rename_i h
      refine plain_cons (CodePoint.isSurrogate_ofChar _) (plain_cons ?_ plain_nil)
      rcases h with rfl | rfl
      · exact hquote
      · exact CodePoint.isSurrogate_ofChar _
    · split
      · exact plain_ofString _
      · split
        · exact plain_ofString _
        · split
          · exact plain_ofString _
          · split
            · rename_i h
              exact plain_cons (CodePoint.isSurrogate_of_isPrintable h) plain_nil
            · unfold CodePoint.numericEscape
              split
              · exact (plain_ofString _).append (plain_hex _ _)
              · split <;> exact (plain_ofString _).append (plain_hex _ _)
  exact (plain_cons hquote (plain_flatMap hpoint)).append (plain_cons hquote plain_nil)

end Text

/-! ## Displayed values -/

theorem Binary64.plain_layOut (pointZero : Bool) {digits : Text} (hd : digits.Plain) (lead : Int) :
    (layOut pointZero digits lead).Plain := by
  have hs := Text.plain_ofString
  have hz := fun n => Text.plain_replicate n '0'
  have htake : ∀ n, Text.Plain (digits.take n) := fun n => hd.of_subset (List.take_subset n digits)
  have hdrop : ∀ n, Text.Plain (digits.drop n) := fun n => hd.of_subset (List.drop_subset n digits)
  unfold layOut
  simp only []
  split
  · split
    · exact ((hs _).append (hz _)).append hd
    · have hwhole := (htake (lead.toNat + 1)).append (hz (lead + 1 - digits.length).toNat)
      split
      · split
        · exact hwhole.append (hs _)
        · exact hwhole
      · exact (hwhole.append (hs _)).append (hdrop _)
  · have hfraction : Text.Plain (if digits.length ≤ 1 then [] else Text.ofString "." ++ digits.drop 1) := by
      split
      · exact Text.plain_nil
      · exact (hs _).append (hdrop _)
    exact ((((htake 1).append hfraction).append (hs _)).append (hz _)).append (Text.plain_ofNat _)

theorem Binary64.plain_plain (x : Binary64) : x.plain.Plain := by
  have hs := Text.plain_ofString
  cases x with
  | finite negative m q =>
    rw [plain, text]
    refine Text.Plain.append (hs _) ?_
    unfold magnitudeText
    split
    · exact plain_layOut _ (hs _) _
    · obtain ⟨digits, exponent⟩ := shortest m q
      exact plain_layOut _ (Text.plain_dropWhile (Text.plain_ofNat digits) _) _
  | infinity negative =>
    rw [plain, text]
    exact Text.Plain.append (hs _) (hs _)
  | nan => exact hs _

theorem Key.plain_quoted : ∀ k : Key, k.quoted.Plain
  | .bool b => Text.plain_ofBool b
  | .int n => Text.plain_ofInt n
  | .float x => x.plain_plain
  | .text t => t.plain_quoted

namespace Value

mutual

/-- What a value looks like inside another one is plain. -/
theorem plain_quoted : ∀ v : Value, v.quoted.Plain
  | .null => Text.plain_ofString _
  | .bool b => Text.plain_ofBool b
  | .int n => Text.plain_ofInt n
  | .float x => x.plain_plain
  | .text t => t.plain_quoted
  | .list items => by
    rw [quoted]
    have hj := Text.plain_joined (Text.plain_ofString ", ") (plain_quotedItems items)
    exact ((Text.plain_ofString _).append hj).append (Text.plain_ofString _)
  | .object entries => by
    rw [quoted]
    have hj := Text.plain_joined (Text.plain_ofString ", ") (plain_quotedEntries entries)
    exact ((Text.plain_ofString _).append hj).append (Text.plain_ofString _)

theorem plain_quotedItems : ∀ items : List Value, ∀ t ∈ quotedItems items, t.Plain
  | [] => fun _ h => absurd h List.not_mem_nil
  | v :: rest => List.forall_mem_cons.2 ⟨plain_quoted v, plain_quotedItems rest⟩

theorem plain_quotedEntries : ∀ entries : List (Key × Value), ∀ t ∈ quotedEntries entries, t.Plain
  | [] => fun _ h => absurd h List.not_mem_nil
  | (k, v) :: rest => by
    have hv := (k.plain_quoted.append (Text.plain_ofString ": ")).append (plain_quoted v)
    exact List.forall_mem_cons.2 ⟨hv, plain_quotedEntries rest⟩

end

mutual

/-- Whether no text in the value holds a surrogate. -/
def Plain : Value → Prop
  | .text t => t.Plain
  | .list items => ItemsPlain items
  | .object entries => EntriesPlain entries
  | _ => True

/-- Whether no text in the items holds a surrogate. -/
def ItemsPlain : List Value → Prop
  | [] => True
  | v :: rest => v.Plain ∧ ItemsPlain rest

/-- Whether no text in the entries holds a surrogate. -/
def EntriesPlain : List (Key × Value) → Prop
  | [] => True
  | (key, v) :: rest => key.display.Plain ∧ v.Plain ∧ EntriesPlain rest

end

theorem itemsPlain_iff : ∀ {items : List Value}, ItemsPlain items ↔ ∀ v ∈ items, v.Plain
  | [] => by simp [ItemsPlain]
  | v :: rest => by
    have ih := @itemsPlain_iff rest
    simp [ItemsPlain, ih]

theorem entriesPlain_iff : ∀ {entries : List (Key × Value)},
    EntriesPlain entries ↔ ∀ e ∈ entries, e.1.display.Plain ∧ e.2.Plain
  | [] => by simp [EntriesPlain]
  | (key, v) :: rest => by
    have ih := @entriesPlain_iff rest
    simp [EntriesPlain, ih, and_assoc]

/-- What is found in plain entries is plain. -/
theorem plain_getD_lookup? {name : Text} {entries : List (Key × Value)} {other : Value} (h : EntriesPlain entries)
    (ho : other.Plain) : ((lookup? name entries).getD other).Plain := by
  cases hl : lookup? name entries with
  | none => exact ho
  | some v => exact (entriesPlain_iff.1 h _ (Table.mem_of_get? hl)).2

theorem plain_field (name : Text) {entries : List (Key × Value)} (h : EntriesPlain entries) :
    (field name entries).Plain :=
  plain_getD_lookup? h trivial

/-- What a plain value displays is plain. -/
theorem plain_display {v : Value} (h : v.Plain) : v.display.Plain := by
  cases v with
  | text t => exact h
  | _ => exact plain_quoted _

end Value

namespace Text

theorem refusal?_eq_none {refused : CodePoint → Bool} {t : Text} :
    t.refusal? refused = none ↔ ∀ c ∈ t, refused c = false := by
  rw [refusal?, Option.map_eq_none_iff, List.findIdx?_eq_none_iff]

/-- Exactly plain texts have bytes. -/
theorem returns_encode (t : Text) : Returns t.encode ↔ t.Plain := by
  unfold encode
  split
  · rename_i h
    exact iff_of_true (returns_ok _) (refusal?_eq_none.1 h)
  · rename_i place h
    refine iff_of_false (not_returns_error _) fun hp => ?_
    cases h.symm.trans (refusal?_eq_none.2 hp)

/-! ### What bytes encode -/

section Decoding

variable {start : Nat} {c : CodePoint} {rest' : List UInt8}

/-- Every byte that follows adds six bits. -/
theorem exists_of_decodeTail : ∀ {missing bits : Nat} {seen rest : List UInt8},
    decodeTail start missing 0x80 0xBF bits seen rest = .ok (c, rest') →
      ∃ n, c = .ofNat n ∧ bits * 64 ^ missing ≤ n ∧ n < (bits + 1) * 64 ^ missing
  | 0, bits, _, _, h => by
    cases h
    exact ⟨bits, rfl, by omega, by omega⟩
  | missing + 1, bits, _, [], h => by cases h
  | missing + 1, bits, _, b :: rest, h => by
    rw [decodeTail] at h
    split_ifs at h
    obtain ⟨n, hc, hl, hu⟩ := exists_of_decodeTail h
    have hsix : b.toNat % 0x40 < 64 := Nat.mod_lt _ (by decide)
    refine ⟨n, hc, Nat.le_trans ?_ hl, Nat.lt_of_lt_of_le hu ?_⟩
    · rw [Nat.pow_succ', ← Nat.mul_assoc]
      exact Nat.mul_le_mul_right _ (by omega)
    · rw [Nat.pow_succ', ← Nat.mul_assoc]
      exact Nat.mul_le_mul_right _ (by omega)

/-- The byte behind the first one adds six bits within bounds of its own. -/
theorem exists_second {missing low high bits : Nat} {seen rest : List UInt8}
    (h : decodeTail start (missing + 1) low high bits seen rest = .ok (c, rest')) : ∃ b n, low ≤ b ∧ b ≤ high ∧
      c = .ofNat n ∧ (bits * 64 + b % 64) * 64 ^ missing ≤ n ∧ n < (bits * 64 + b % 64 + 1) * 64 ^ missing := by
  cases rest with
  | nil => cases h
  | cons b rest =>
    rw [decodeTail] at h
    split_ifs at h with hb
    obtain ⟨n, hn⟩ := exists_of_decodeTail h
    exact ⟨b.toNat, n, hb.1, hb.2, hn⟩

theorem isSurrogate_ofNat_of_lt {n : Nat} (h : n < 0xD800 ∨ 0xE000 ≤ n ∧ n < 0x110000) :
    (CodePoint.ofNat n).isSurrogate = false := by
  have hval : (CodePoint.ofNat n).val = n := Nat.mod_eq_of_lt (by omega)
  rw [CodePoint.isSurrogate, hval, ← Bool.decide_and, decide_eq_false_iff_not]
  omega

/-- The bounds of the second byte leave no room for surrogates. -/
theorem isSurrogate_of_decodePoint {b : UInt8} {rest : List UInt8}
    (h : decodePoint start b rest = .ok (c, rest')) : c.isSurrogate = false := by
  have hbyte : b.toNat < 256 := b.toNat_lt
  unfold decodePoint Lead.ofByte? at h
  dsimp only at h
  split_ifs at h
  · have h : decodeTail start 0 0x80 0xBF b.toNat [b] rest = .ok (c, rest') := h
    obtain ⟨n, rfl, _, hu⟩ := exists_of_decodeTail h
    exact isSurrogate_ofNat_of_lt (by omega)
  all_goals
    obtain ⟨b', n, hl, hh, rfl, hn, hu⟩ := exists_second h
    dsimp only at hl hh hn hu
    exact isSurrogate_ofNat_of_lt (by omega)

theorem plain_decodeFrom : ∀ {fuel start : Nat} {read : Text} {bytes : List UInt8} {t : Text}, read.Plain →
    decodeFrom fuel start read bytes = .ok t → t.Plain
  | fuel, _, read, [], t, hp, h => by
    have ht : read.reverse = t := by cases fuel <;> cases h <;> rfl
    exact hp.of_subset (ht ▸ List.reverse_subset.2 (List.Subset.refl read))
  | 0, _, read, _ :: _, _, hp, h => by
    cases h
    exact hp.of_subset (List.reverse_subset.2 (List.Subset.refl read))
  | fuel + 1, _, read, b :: rest, t, hp, h => by
    obtain ⟨⟨c, rest'⟩, hpoint, h⟩ := except_bind_eq_ok.1 h
    exact plain_decodeFrom (List.forall_mem_cons.2 ⟨isSurrogate_of_decodePoint hpoint, hp⟩) h

/-- What bytes encode is plain. -/
theorem plain_decode {bytes : List UInt8} {t : Text} (h : decode bytes = .ok t) : t.Plain :=
  plain_decodeFrom (List.forall_mem_nil _) h

end Decoding

end Text

namespace Abi

/-! ## Signatures -/

/-- Exactly plain texts have a hash. -/
theorem returns_signatureHash (t : Text) : Returns (signatureHash t) ↔ t.Plain := by
  rw [signatureHash, returns_mapError, Keccak.digest, returns_bind_pure, Text.returns_encode]

/-- What stands in a type after short spellings were replaced stood there before, or in the type that one stands for. -/
theorem mem_expandAliases {type : Text} {c : CodePoint} (h : c ∈ expandAliases type) :
    c ∈ type ∨ ∃ e ∈ aliases, c ∈ e.2 := by
  obtain ⟨word, hw, hc⟩ := List.mem_flatMap.1 h
  unfold expandWord at hc
  cases hl : aliases.lookup word with
  | none =>
    rw [hl] at hc
    refine .inl ?_
    rw [← List.flatten_splitBy (fun a b : CodePoint => a.isWord == b.isWord) type]
    exact List.mem_flatten_of_mem hw hc
  | some t =>
    rw [hl] at hc
    obtain ⟨before, after, he, _⟩ := List.lookup_eq_some_iff.1 hl
    exact .inr ⟨(word, t), he ▸ List.mem_append_right _ List.mem_cons_self, hc⟩

theorem plain_aliases : ∀ e ∈ aliases, e.2.Plain := by
  intro e he
  simp only [aliases, List.mem_cons, List.not_mem_nil, or_false] at he
  rcases he with rfl | rfl | rfl | rfl | rfl | rfl <;> exact Text.plain_ofString _

/-- A plain type stays plain when short spellings are replaced. -/
theorem plain_expandAliases {type : Text} (h : type.Plain) : (expandAliases type).Plain := by
  intro c hc
  rcases mem_expandAliases hc with hc | ⟨e, he, hc⟩
  · exact h c hc
  · exact plain_aliases e he c hc

mutual

/-- The canonical type of a plain parameter is plain. -/
theorem plain_canonicalType : ∀ {p : Value}, p.Plain → ∀ {t : Text}, canonicalType p = .ok t → t.Plain
  | .object entries, hp, t, h => by
    have htype : ((Value.lookup? "type" entries).getD "").Plain := Value.plain_getD_lookup? hp (Text.plain_ofString _)
    rw [canonicalType] at h
    split at h
    · rename_i type heq
      rw [heq] at htype
      split at h
      · obtain ⟨members, hm, h⟩ := except_bind_eq_ok.1 h
        cases h
        have hj := Text.plain_joined (Text.plain_ofString ",") (plain_memberTypes hp hm)
        refine (((Text.plain_ofString _).append hj).append (Text.plain_ofString _)).append ?_
        exact Text.Plain.of_subset htype (List.drop_subset _ _)
      · cases h
        exact plain_expandAliases htype
    · cases h
  | .null, _, _, h | .bool _, _, _, h | .int _, _, _, h | .float _, _, _, h | .text _, _, _, h | .list _, _, _, h => by
    cases h

theorem plain_memberTypes : ∀ {entries : List (Key × Value)}, Value.EntriesPlain entries → ∀ {ts : List Text},
    memberTypes entries = .ok ts → ∀ t ∈ ts, t.Plain
  | [], _, ts, h => by
    cases h
    exact fun _ h => absurd h List.not_mem_nil
  | (key, v) :: rest, ⟨_, hv, hrest⟩, ts, h => by
    rw [memberTypes] at h
    split at h
    · exact plain_canonicalTypesIn hv h
    · exact plain_memberTypes hrest h

theorem plain_canonicalTypesIn : ∀ {v : Value}, v.Plain → ∀ {ts : List Text},
    canonicalTypesIn v = .ok ts → ∀ t ∈ ts, t.Plain
  | .list parameters, hv, ts, h => plain_canonicalTypes (Value.itemsPlain_iff.1 hv) h
  | .null, _, ts, h | .bool _, _, ts, h | .int _, _, ts, h | .float _, _, ts, h | .text _, _, ts, h |
    .object _, _, ts, h => by
    obtain ⟨elements, _, h⟩ := except_bind_eq_ok.1 h
    cases elements with
    | nil =>
      cases h
      exact fun _ h => absurd h List.not_mem_nil
    | cons first rest => cases h

theorem plain_canonicalTypes : ∀ {parameters : List Value}, (∀ p ∈ parameters, p.Plain) → ∀ {ts : List Text},
    canonicalTypes parameters = .ok ts → ∀ t ∈ ts, t.Plain
  | [], _, ts, h => by
    cases h
    exact fun _ h => absurd h List.not_mem_nil
  | p :: rest, hp, ts, h => by
    obtain ⟨t, ht, h⟩ := except_bind_eq_ok.1 h
    obtain ⟨rest', hrest, h⟩ := except_bind_eq_ok.1 h
    cases h
    have hp := List.forall_mem_cons.1 hp
    exact List.forall_mem_cons.2 ⟨plain_canonicalType hp.1 ht, plain_canonicalTypes hp.2 hrest⟩

end

end Abi

end ContractApi
