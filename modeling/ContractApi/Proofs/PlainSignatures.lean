import ContractApi.Proofs.CanonicalTypes
import ContractApi.Proofs.Recomputed
/-!
# When a signature is the text that was hashed

The plain signature of an item has the types of its inputs as they are written, the canonical one, from which its hash
is computed, the canonical types. The two agree exactly if all types are canonical as they are written.

- Texts that are joined can be told apart again, as long as none of them holds the beginning of the separator
  (`joined_inj`).
- The canonical type of a tuple holds a closing parenthesis, and other types are as many as they were
  (`canonicalTypes_eq_ok`), so no two differences make up for each other (`signatures_agree`).
-/

namespace ContractApi

namespace Text

/-! ## Texts that are joined -/

theorem mem_joined {c : CodePoint} {separator : Text} : ∀ {ts : List Text}, c ∈ joined separator ts →
    c ∈ separator ∨ ∃ t ∈ ts, c ∈ t
  | [], h => absurd h List.not_mem_nil
  | [t], h => by
    rw [joined, List.intercalate_singleton] at h
    exact .inr ⟨t, List.mem_cons_self, h⟩
  | t :: u :: ts, h => by
    rw [joined, List.intercalate_cons_cons, List.mem_append, List.mem_append] at h
    obtain (h | h) | h := h
    · exact .inr ⟨t, List.mem_cons_self, h⟩
    · exact .inl h
    · obtain h | ⟨v, hv, h⟩ := mem_joined h
      · exact .inl h
      · exact .inr ⟨v, List.mem_cons_of_mem t hv, h⟩

theorem mem_joined_of_mem {c : CodePoint} (separator : Text) {t : Text} (hc : c ∈ t) : ∀ {ts : List Text}, t ∈ ts →
    c ∈ joined separator ts
  | [u], h => by
    rw [joined, List.intercalate_singleton, ← List.mem_singleton.1 h]
    exact hc
  | u :: v :: ts, h => by
    rw [joined, List.intercalate_cons_cons, List.append_assoc]
    obtain rfl | h := List.mem_cons.1 h
    · exact List.mem_append_left _ hc
    · exact List.mem_append_right _ (List.mem_append_right _ (mem_joined_of_mem separator hc h))

/-- Texts that are joined can be told apart again if none of them holds the beginning of the separator, unless there may
be none of them. -/
theorem joined_inj {c : CodePoint} (separator : Text) : ∀ {ts us : List Text}, (∀ t ∈ ts, c ∉ t) →
    (∀ u ∈ us, c ∉ u) → (ts = [] ↔ us = []) → joined (c :: separator) ts = joined (c :: separator) us → ts = us
  | [], us, _, _, hn, _ => (hn.1 rfl).symm
  | t :: ts, [], _, _, hn, _ => hn.2 rfl
  | [t], [u], _, _, _, h => by
    simpa only [joined, List.intercalate_singleton, List.cons.injEq, and_true] using h
  | [t], u :: v :: us, ht, _, _, h => by
    have ht' : joined (c :: separator) [t] = t := List.intercalate_singleton
    rw [joined_cons_cons, ht'] at h
    exact absurd (h ▸ List.mem_append_right u List.mem_cons_self) (ht t List.mem_cons_self)
  | t :: v :: ts, [u], _, hu, _, h => by
    have hu' : joined (c :: separator) [u] = u := List.intercalate_singleton
    rw [joined_cons_cons, hu'] at h
    exact absurd (h ▸ List.mem_append_right t List.mem_cons_self) (hu u List.mem_cons_self)
  | t :: v :: ts, u :: w :: us, ht, hu, _, h => by
    rw [joined_cons_cons, joined_cons_cons] at h
    obtain ⟨hct, hts⟩ := List.forall_mem_cons.1 ht
    obtain ⟨hcu, hus⟩ := List.forall_mem_cons.1 hu
    have hstop : ∀ {a : Text}, c ∉ a → ∀ d ∈ a, decide (d = c) = false :=
      fun ha d hd => decide_eq_false fun e => ha (e ▸ hd)
    obtain ⟨rfl, htail⟩ := Abi.append_inj_of_stop (hstop hct) (hstop hcu) (by simp) (by simp) h
    have hrest := List.append_cancel_left (List.cons.inj htail).2
    rw [joined_inj separator hts hus (by simp) hrest]

end Text

namespace Abi

open Text

/-! ## Types as they are written -/

/-- Whether these are the types of the inputs as they are written; a missing one is empty. -/
def WrittenTypes (inputs : Value) (types : List Text) : Prop := ∃ parameters, listed inputs = .ok parameters ∧
  List.Forall₂ (fun p type => ∃ entries, p = .object entries ∧ (Value.lookup? "type" entries).getD "" = .text type)
    parameters types

/-- Whether the type is the same in every signature: it does not begin like a tuple, and no short spelling stands in it
as a whole word. -/
structure IsLiteral (type : Text) : Prop where
  not_tuple : ¬tupleWord <+: type
  not_short : ∀ e ∈ aliases, ¬HasWord e.1 type

theorem expandAliases_of_isLiteral {type : Text} (h : IsLiteral type) : expandAliases type = type :=
  expandAliases_eq_self_iff.2 h.not_short

section Items

variable {entries : List (Key × Value)} {types : List Text}

theorem joinTexts_texts (separator : Text) (texts : List Text) :
    joinTexts separator (texts.map .text) = .ok (joined separator texts) := by
  have htexts : ∀ v ∈ texts.map Value.text, v.IsText := List.forall_mem_map.2 fun t _ => ⟨t, rfl⟩
  obtain ⟨t, ht⟩ : Returns (joinTexts separator (texts.map .text)) := returns_joinTexts.2 htexts
  obtain ⟨texts', hsame, rfl⟩ := joinTexts_eq_ok ht
  have hinj : Function.Injective Value.text := fun _ _ h => Value.text.inj h
  rw [ht, hinj.list_map hsame]

theorem plainSignature_of_written (h : WrittenTypes (Value.field "inputs" entries) types) :
    plainSignature (.object entries) = .ok (signatureText (nameIn entries) (joined "," types)) := by
  obtain ⟨parameters, hl, htypes⟩ := h
  have hwritten : (parameters.mapM fun p => do return (Value.lookup? "type" (← entriesOf p)).getD "") =
      (.ok (types.map .text) : Except Fault (List Value)) := by
    refine except_mapM_eq_ok.2 (List.forall₂_map_right_iff.2 (htypes.imp ?_))
    rintro _ type ⟨es, rfl, htype⟩
    exact congrArg Except.ok htype
  change (listed (Value.field "inputs" entries) >>= fun inputs => _) = _
  rw [hl, except_ok_bind, hwritten, except_ok_bind, joinTexts_texts]
  rfl

theorem canonicalSignature_of_listed {parameters : List Value} {t : Text}
    (hl : listed (Value.field "inputs" entries) = .ok parameters) : canonicalSignature (.object entries) = .ok t ↔
      ∃ types, canonicalTypes parameters = .ok types ∧ t = signatureText (nameIn entries) (joined "," types) := by
  constructor
  · intro h
    obtain ⟨_, types, hl', htypes, ht⟩ := canonicalSignature_eq_ok h
    cases hl.symm.trans hl'
    exact ⟨types, htypes, ht⟩
  · rintro ⟨types, htypes, rfl⟩
    change (listed (Value.field "inputs" entries) >>= fun inputs => _) = _
    rw [hl, except_ok_bind, htypes]
    rfl

theorem signatureText_inj {name a b : Text} (h : signatureText name a = signatureText name b) : a = b := by
  simp only [signatureText, List.append_assoc] at h
  exact List.append_cancel_right (List.append_cancel_left (List.append_cancel_left h))

/-! ## Canonical types beside the written ones -/

/-- A tuple is rendered with a closing parenthesis. -/
theorem close_mem_canonicalType {type t : Text} (htype : (Value.lookup? "type" entries).getD "" = .text type)
    (htuple : tupleWord <+: type) (h : canonicalType (.object entries) = .ok t) : CodePoint.ofChar ')' ∈ t := by
  rw [canonicalType, htype] at h
  simp only [if_pos (List.isPrefixOf_iff_prefix.2 htuple)] at h
  obtain ⟨types, _, h⟩ := except_bind_eq_ok.1 h
  cases h
  exact List.mem_append_left _ (List.mem_append_right _ List.mem_cons_self)

/-- How a type is rendered: a tuple with a parenthesis, and any other type expanded. -/
inductive RenderedAs : Text → Text → Prop
  | tuple {type t : Text} (ht : tupleWord <+: type) (hclose : CodePoint.ofChar ')' ∈ t) : RenderedAs type t
  | plain {type : Text} (ht : ¬tupleWord <+: type) : RenderedAs type (expandAliases type)

theorem renderedAs_canonicalTypes {parameters : List Value} {canonical : List Text}
    (hw : List.Forall₂ (fun p type => ∃ es, p = .object es ∧ (Value.lookup? "type" es).getD "" = .text type)
      parameters types) (h : canonicalTypes parameters = .ok canonical) : List.Forall₂ RenderedAs types canonical := by
  rw [canonicalTypes_eq_mapM] at h
  refine forall₂_of_left ?_ hw (except_mapM_eq_ok.1 h)
  rintro _ type t ⟨es, rfl, htype⟩ ht
  by_cases htuple : tupleWord <+: type
  · exact .tuple htuple (close_mem_canonicalType htype htuple ht)
  · cases (canonicalType_plain htype htuple).symm.trans ht
    exact .plain htuple

/-- Without parentheses, nothing was rendered but expansions. -/
theorem eq_map_of_renderedAs {canonical : List Text} (h : List.Forall₂ RenderedAs types canonical)
    (hn : ∀ t ∈ canonical, CodePoint.ofChar ')' ∉ t) :
    (∀ type ∈ types, ¬tupleWord <+: type) ∧ canonical = types.map expandAliases := by
  induction h with
  | nil => exact ⟨fun _ h => absurd h List.not_mem_nil, rfl⟩
  | cons hr _ ih =>
    obtain ⟨ht, hrest⟩ := List.forall_mem_cons.1 hn
    obtain ⟨hnot, rfl⟩ := ih hrest
    cases hr with
    | tuple _ hclose => exact absurd hclose ht
    | plain hplain => exact ⟨List.forall_mem_cons.2 ⟨hplain, hnot⟩, rfl⟩

/-- Types that are rendered as they are written are literal, if they hold neither commas nor closing parentheses. -/
theorem isLiteral_of_joined_eq {canonical : List Text}
    (hs : ∀ type ∈ types, CodePoint.ofChar ',' ∉ type ∧ CodePoint.ofChar ')' ∉ type)
    (h : List.Forall₂ RenderedAs types canonical) (hj : joined "," canonical = joined "," types) :
    ∀ type ∈ types, IsLiteral type := by
  have hclosed : ∀ t ∈ canonical, CodePoint.ofChar ')' ∉ t := by
    intro t ht hc
    have hc := mem_joined_of_mem "," hc ht
    rw [hj] at hc
    obtain hc | ⟨type, htype, hc⟩ := mem_joined hc
    · exact absurd hc (by decide)
    · exact (hs type htype).2 hc
  obtain ⟨hnot, rfl⟩ := eq_map_of_renderedAs h hclosed
  have hcomma : ∀ t ∈ types.map expandAliases, CodePoint.ofChar ',' ∉ t := by
    have halias : ∀ e ∈ aliases, CodePoint.ofChar ',' ∉ e.2 := by decide
    refine List.forall_mem_map.2 fun type htype hc => ?_
    obtain hc | ⟨e, he, hc⟩ := mem_expandAliases hc
    · exact (hs type htype).1 hc
    · exact halias e he hc
  -- there are as many expansions as types, so each of them is its type
  have hsame : types.map expandAliases = types.map id := by
    rw [List.map_id]
    exact joined_inj [] hcomma (fun type htype => (hs type htype).1) (by simp) hj
  intro type htype
  exact ⟨hnot type htype, expandAliases_eq_self_iff.1 (List.map_inj_left.1 hsame type htype)⟩

theorem canonicalTypes_of_isLiteral {parameters : List Value}
    (hw : List.Forall₂ (fun p type => ∃ es, p = .object es ∧ (Value.lookup? "type" es).getD "" = .text type)
      parameters types) (h : ∀ type ∈ types, IsLiteral type) : canonicalTypes parameters = .ok types := by
  rw [canonicalTypes_eq_mapM, except_mapM_eq_ok]
  refine ((List.forall₂_and_left _ _).2 ⟨h, hw.flip⟩).flip.imp ?_
  rintro _ type ⟨hliteral, es, rfl, htype⟩
  rw [canonicalType_plain htype hliteral.not_tuple, expandAliases_of_isLiteral hliteral]

/-! ## Records -/

/-- Whether the signature of a record is the text that its hash was computed from. -/
def Identification.SignsHashed (hash : Text → Except Fault Text) (item : Value) (x : Identification) : Prop :=
  ∃ t digest, canonicalSignature item = .ok t ∧ hash t = .ok digest ∧ x.digest = .text digest ∧ x.signature = .text t

/-- A record that has both its plain signature and a hash signs what was hashed exactly if the two signatures agree. -/
theorem signsHashed_iff {hash : Text → Except Fault Text} {item : Value} {x : Identification}
    (hs : ∃ signature, plainSignature item = .ok signature ∧ x.signature = .text signature)
    (hd : ∃ digest, (canonicalSignature item >>= hash) = .ok digest ∧ x.digest = .text digest) :
    x.SignsHashed hash item ↔ plainSignature item = canonicalSignature item := by
  obtain ⟨signature, hplain, hsignature⟩ := hs
  obtain ⟨digest, hhash, hdigest⟩ := hd
  obtain ⟨t, ht, hhash⟩ := except_bind_eq_ok.1 hhash
  rw [hplain, ht]
  constructor
  · rintro ⟨_, _, ht', _, _, hsame⟩
    cases ht.symm.trans ht'
    cases hsignature.symm.trans hsame
    rfl
  · rintro h
    cases h
    exact ⟨signature, digest, ht, hhash, hdigest, hsignature⟩

/-- The two signatures of an item agree exactly if none of its types begins like a tuple or has a short spelling in it
as a whole word, as long as no type holds a comma or a closing parenthesis. In the same cases the signature in the
record of the item is the text that its hash was computed from. -/
theorem signatures_agree (hw : WrittenTypes (Value.field "inputs" entries) types)
    (hs : ∀ type ∈ types, CodePoint.ofChar ',' ∉ type ∧ CodePoint.ofChar ')' ∉ type) :
    let item : Value := .object entries
    let literal := ∀ type ∈ types, IsLiteral type
    Returns (plainSignature item) ∧
    (AllTypedAs (fun _ => True) (Value.field "inputs" entries) → Returns (canonicalSignature item)) ∧
    (plainSignature item = canonicalSignature item ↔ literal) ∧
    (∀ f, readFunction item entries = .ok f → (f.identification.SignsHashed shortHash item ↔ literal)) ∧
    (∀ e, readEvent item entries = .ok e → (e.identification.SignsHashed signatureHash item ↔ literal)) ∧
    ∀ r, readError item entries = .ok r → (r.identification.SignsHashed shortHash item ↔ literal) := by
  intro item literal
  have hplain := plainSignature_of_written hw
  obtain ⟨parameters, hl, htypes⟩ := hw
  have hiff : plainSignature item = canonicalSignature item ↔ literal := by
    rw [hplain, eq_comm, canonicalSignature_of_listed hl]
    constructor
    · rintro ⟨canonical, hcanonical, hsame⟩
      exact isLiteral_of_joined_eq hs (renderedAs_canonicalTypes htypes hcanonical) (signatureText_inj hsame).symm
    · exact fun h => ⟨types, canonicalTypes_of_isLiteral htypes h, rfl⟩
  refine ⟨⟨_, hplain⟩, fun ht => ?_, hiff, fun f hf => ?_, fun e he => ?_, fun r hr => ?_⟩
  · rw [canonicalSignature_eq ht.null_or_list]
    exact returns_bind_pure.2 (returns_canonicalTypesIn ht)
  · obtain ⟨_, _, _, hsig, hsel, _⟩ := readFunction_eq_ok hf
    rw [← hiff]
    exact signsHashed_iff hsig hsel
  · obtain ⟨_, _, hsig, htopic⟩ := readEvent_eq_ok he
    rw [← hiff]
    exact signsHashed_iff hsig htopic
  · obtain ⟨_, _, hsig, hsel⟩ := readError_eq_ok hr
    rw [← hiff]
    exact signsHashed_iff hsig hsel

end Items

/-- A function with one input. -/
def oneInput (type : Text) : List (Key × Value) :=
  [("type", "function"), ("name", "f"), ("inputs", .list [.object [("type", .text type)]])]

theorem writtenTypes_oneInput (type : Text) : WrittenTypes (Value.field "inputs" (oneInput type)) [type] :=
  ⟨_, rfl, .cons ⟨_, rfl, rfl⟩ .nil⟩

theorem exists_readFunction_my_int :
    ∃ f, readFunction (.object (oneInput "my_int")) (oneInput "my_int") = .ok f := by
  have hs := Text.plain_ofString
  have hplain : Value.EntriesPlain (oneInput "my_int") := by
    simp [oneInput, Value.EntriesPlain, Value.Plain, Value.ItemsPlain, Key.display, hs]
  refine (returns_readFunction hplain rfl rfl rfl).2 ⟨fun p hmem es t he ht => ?_, trivial⟩
  cases List.mem_singleton.1 hmem
  cases he
  cases ht
  exact trivial

/-- An underscore is part of a word, and a point is none. -/
theorem signatures_agree_words :
    (∃ f, readFunction (.object (oneInput "my_int")) (oneInput "my_int") = .ok f ∧
      f.identification.SignsHashed shortHash (.object (oneInput "my_int"))) ∧
    plainSignature (.object (oneInput "my.int")) ≠ canonicalSignature (.object (oneInput "my.int")) := by
  have hword : ∀ type ∈ [Text.ofString "my_int"], IsLiteral type := by
    intro type htype
    rw [List.mem_singleton.1 htype]
    exact ⟨by decide, expandAliases_eq_self_iff.1 (by rfl)⟩
  have hpoint : ¬∀ type ∈ [Text.ofString "my.int"], IsLiteral type := by
    intro h
    have hshort := (h _ List.mem_cons_self).not_short ("int", "int256") (by decide)
    have hbefore : ∀ c ∈ (Text.ofString "my.").getLast?, c.isWord = false := fun c hc => by
      cases hc
      decide
    exact hshort ⟨"my.", [], rfl, hbefore, by simp⟩
  obtain ⟨f, hf⟩ := exists_readFunction_my_int
  have hs : ∀ type : Text, type = "my_int" ∨ type = "my.int" → ∀ t ∈ [type], CodePoint.ofChar ',' ∉ t ∧
      CodePoint.ofChar ')' ∉ t := by
    rintro type (rfl | rfl) t ht <;> rw [List.mem_singleton.1 ht] <;> decide
  obtain ⟨_, _, _, hrecord, _⟩ := signatures_agree (writtenTypes_oneInput "my_int") (hs _ (.inl rfl))
  obtain ⟨_, _, hagree, _⟩ := signatures_agree (writtenTypes_oneInput "my.int") (hs _ (.inr rfl))
  exact ⟨⟨f, hf, (hrecord f hf).2 hword⟩, fun h => hpoint (hagree.1 h)⟩

end Abi

end ContractApi
