import ContractApi.Proofs.SameItems
/-!
# Lists of items put together

- Items that stand behind others are read as they are by themselves, but a failure names the place further down
  (`readItems_append`, `readItems_shifted`).
- Reading fails at the first item that cannot be read (`readItems_eq_error`), and sorts the items by their kinds otherwise
  (`sortsItems_of_readItems`).
- So an interface of two lists is made of the interfaces of both (`readInterface_append_ok`), and a failure is that of the
  first list, or else that of the second one; `readInterface_append` says all of this.
-/

namespace ContractApi

namespace Failure

/-- The failure of an item that stands behind `n` others. -/
def shifted (n : Nat) : Failure → Failure
  | itemNotObject index => itemNotObject (n + index)
  | failure => failure

end Failure

namespace Outcome

variable {α β : Type}

theorem mapFailure_bind (g : Failure → Failure) (x : Outcome α) (f : α → Outcome β) :
    (x >>= f).mapFailure g = x.mapFailure g >>= fun a => (f a).mapFailure g := by
  cases hx : x.result with
  | error failure =>
    have hg : (x.mapFailure g).result = .error (g failure) := by rw [mapFailure, hx]; rfl
    rw [bind_of_error hx, bind_of_error hg]
    rfl
  | ok a =>
    have hg : (x.mapFailure g).result = .ok a := by rw [mapFailure, hx]; rfl
    rw [bind_of_ok hx, bind_of_ok hg]
    rfl

theorem mapFailure_mapFailure (g h : Failure → Failure) (x : Outcome α) :
    (x.mapFailure g).mapFailure h = x.mapFailure (h ∘ g) := by
  obtain ⟨notices, _ | _⟩ := x <;> rfl

end Outcome

namespace Abi

/-! ## Items behind others -/

/-- An object is read alike wherever it stands; anything else fails at its place. -/
theorem readItem_shifted (item : Value) (n index : Nat) :
    readItem item (n + index) = (readItem item index).mapError (Failure.shifted n) := by
  cases item with
  | object entries =>
    have hsame : readItem (.object entries) (n + index) = readItem (.object entries) index := rfl
    rw [hsame]
    cases h : readItem (.object entries) index with
    | ok record => rfl
    | error failure => rcases failsAnywhere_readItem entries index failure h with ⟨fault, rfl⟩ | rfl <;> rfl
  | _ => rfl

theorem readItems_shifted (n : Nat) : ∀ (index : Nat) (items : List Value),
    readItems (n + index) items = (readItems index items).mapFailure (Failure.shifted n)
  | _, [] => rfl
  | index, item :: rest => by
    have hcomp : inReading ∘ Failure.shifted n = Failure.shifted n ∘ inReading := by
      funext failure
      cases failure <;> rfl
    have hitem : Outcome.mapFailure inReading (.ofExcept (readItem item (n + index))) =
        (Outcome.mapFailure inReading (.ofExcept (readItem item index))).mapFailure (Failure.shifted n) := by
      rw [readItem_shifted, Outcome.mapFailure_mapFailure, ← hcomp, ← Outcome.mapFailure_mapFailure]
      rfl
    have htold : ∀ record : ItemRecord,
        (record.notices.forM Outcome.tell).mapFailure (Failure.shifted n) = record.notices.forM Outcome.tell := by
      intro record
      cases record <;> rfl
    rw [readItems, readItems, Outcome.mapFailure_bind, hitem]
    refine congrArg (_ >>= ·) (funext fun record => ?_)
    rw [Outcome.mapFailure_bind, htold]
    refine congrArg (_ >>= ·) (funext fun _ => ?_)
    rw [Outcome.mapFailure_bind, ← readItems_shifted n (index + 1) rest, Nat.add_assoc]
    rfl

/-- A list behind another one is read after it. -/
theorem readItems_append : ∀ (index : Nat) (xs ys : List Value), readItems index (xs ++ ys) = (do
    let records ← readItems index xs
    return records ++ (← readItems (index + xs.length) ys))
  | index, [], ys => by simp [readItems]
  | index, x :: xs, ys => by
    have hindex : index + 1 + xs.length = index + (x :: xs).length := by simp [Nat.add_comm, Nat.add_left_comm]
    rw [List.cons_append, readItems, readItems]
    simp only [readItems_append (index + 1) xs ys, bind_assoc, pure_bind, hindex, List.cons_append]

/-! ## The first item that cannot be read -/

/-- Whether reading the items from the index on stops at one of them, for the cause. -/
def StopsAt (items : List Value) (index : Nat) (cause : Failure) : Prop := ∃ before item after,
  items = before ++ item :: after ∧ (∀ e ∈ before.zipIdx index, Returns (readItem e.1 e.2)) ∧
    readItem item (index + before.length) = .error cause

/-- Reading stops at the first item, or this one is read and reading stops later. -/
theorem stopsAt_cons {item : Value} {items : List Value} {index : Nat} {cause : Failure} :
    StopsAt (item :: items) index cause ↔
      readItem item index = .error cause ∨ Returns (readItem item index) ∧ StopsAt items (index + 1) cause := by
  constructor
  · rintro ⟨_ | ⟨first, before⟩, stopper, after, hitems, hbefore, hstop⟩
    · cases hitems
      exact .inl hstop
    · cases hitems
      rw [List.zipIdx_cons, List.forall_mem_cons] at hbefore
      rw [List.length_cons, Nat.add_comm before.length, ← Nat.add_assoc] at hstop
      exact .inr ⟨hbefore.1, before, stopper, after, rfl, hbefore.2, hstop⟩
  · rintro (h | ⟨hfirst, before, stopper, after, rfl, hbefore, hstop⟩)
    · exact ⟨[], item, items, rfl, fun _ he => absurd he List.not_mem_nil, h⟩
    · refine ⟨item :: before, stopper, after, rfl, ?_, ?_⟩
      · rw [List.zipIdx_cons, List.forall_mem_cons]
        exact ⟨hfirst, hbefore⟩
      · rw [List.length_cons, Nat.add_comm before.length, ← Nat.add_assoc]
        exact hstop

theorem not_stopsAt_nil {index : Nat} {cause : Failure} : ¬StopsAt [] index cause := by
  rintro ⟨before, item, after, h, _⟩
  cases before <;> cases h

theorem mapFailure_eq_error {α : Type} {f : Failure → Failure} {x : Except Failure α} {failure : Failure} :
    (Outcome.mapFailure f (.ofExcept x)).result = .error failure ↔ ∃ cause, x = .error cause ∧ failure = f cause := by
  cases x <;> simp [Outcome.mapFailure, Outcome.ofExcept, Except.mapError, eq_comm]

theorem readItems_cons_eq_error {index : Nat} {item : Value} {items : List Value} {failure : Failure} :
    (readItems index (item :: items)).result = .error failure ↔
      (∃ cause, readItem item index = .error cause ∧ failure = inReading cause) ∨
        Returns (readItem item index) ∧ (readItems (index + 1) items).result = .error failure := by
  rw [readItems, Outcome.bind_eq_error, mapFailure_eq_error]
  refine or_congr_right ?_
  simp only [mapFailure_eq_ok]
  constructor
  · rintro ⟨record, hr, h⟩
    rcases Outcome.bind_eq_error.1 h with h | ⟨_, _, h⟩
    · cases record <;> cases h
    · exact ⟨⟨record, hr⟩, Outcome.map_eq_error.1 (by rwa [map_eq_pure_bind])⟩
  · rintro ⟨⟨record, hr⟩, h⟩
    have ht : (record.notices.forM Outcome.tell).result = .ok () := by cases record <;> rfl
    refine ⟨record, hr, Outcome.bind_eq_error.2 (.inr ⟨(), ht, ?_⟩)⟩
    rw [← map_eq_pure_bind]
    exact Outcome.map_eq_error.2 h

/-- Reading a list fails exactly with the failure of the first item that cannot be read. -/
theorem readItems_eq_error : ∀ {items : List Value} {index : Nat} {failure : Failure},
    (readItems index items).result = .error failure ↔ ∃ cause, StopsAt items index cause ∧ failure = inReading cause
  | [], index, failure => by
    refine iff_of_false (fun h => by cases h) ?_
    rintro ⟨cause, h, _⟩
    exact not_stopsAt_nil h
  | item :: items, index, failure => by
    rw [readItems_cons_eq_error, readItems_eq_error]
    simp only [stopsAt_cons, or_and_right, exists_or, and_assoc, exists_and_left]

/-! ## Items by their kinds -/

/-- Whether an object is read as the record. -/
def ReadsAs {α : Type} (read : Value → List (Key × Value) → Except Failure α) (item : Value) (a : α) : Prop :=
  ∃ entries, item = .object entries ∧ read item entries = .ok a

/-- The items that have no counterpart. -/
def others (items : List Value) : List Value := items.filter (ItemKind.of · ∉ describedKinds)

/-- Whether the notice says that the item is skipped. -/
def SaysSkipped (item : Value) (notice : Notice) : Prop :=
  ∃ entries, item = .object entries ∧ notice = .itemSkipped (Value.field "type" entries)

/-- Whether the records are what the functions, the events and the errors among the items are read as, each in order, and
the notices say that all other items are skipped. -/
structure SortsItems (items : List Value) (fs : List FunctionRecord) (es : List EventRecord) (rs : List ErrorRecord)
    (notices : List Notice) : Prop where
  functions : List.Forall₂ (ReadsAs readFunction) (items.filter (ItemKind.of · = .function)) fs
  events : List.Forall₂ (ReadsAs readEvent) (items.filter (ItemKind.of · = .event)) es
  errors : List.Forall₂ (ReadsAs readError) (items.filter (ItemKind.of · = .error)) rs
  skipped : List.Forall₂ SaysSkipped (others items) notices
  total : fs.length + es.length + rs.length + notices.length = items.length

theorem others_cons (item : Value) (items : List Value) : others (item :: items) =
    if ItemKind.of item ∈ describedKinds then others items else item :: others items := by
  simp only [others, List.filter_cons, decide_not, Bool.not_eq_true', decide_eq_false_iff_not, ite_not]

/-- Every item is of one of the kinds that are described, or one of the others. -/
theorem length_kinds (items : List Value) :
    (items.filter (ItemKind.of · = .function)).length + (items.filter (ItemKind.of · = .event)).length +
      (items.filter (ItemKind.of · = .error)).length + (others items).length = items.length := by
  induction items with
  | nil => rfl
  | cons item items ih =>
    simp only [others_cons, List.filter_cons, List.length_cons]
    cases ItemKind.of item <;> simp [describedKinds] <;> omega

/-- Exactly the items that are not described are told of. -/
theorem saysSkipped_readItems : ∀ {items : List Value} {index : Nat} {records : List ItemRecord},
    (readItems index items).result = .ok records →
      List.Forall₂ SaysSkipped (others items) (readItems index items).notices
  | [], _, _, _ => .nil
  | item :: items, index, records, h => by
    obtain ⟨record, rest, hr, hrest, -⟩ := readItems_cons_eq_ok.1 h
    have ih := saysSkipped_readItems hrest
    have hnotices : (readItems index (item :: items)).notices =
        record.notices ++ (readItems (index + 1) items).notices := by
      have ht : (record.notices.forM Outcome.tell).result = .ok () := by cases record <;> rfl
      rw [readItems, Outcome.bind_of_ok (mapFailure_eq_ok.2 hr), Outcome.bind_of_ok ht, ← map_eq_pure_bind]
      cases record <;> simp <;> rfl
    rw [hnotices, others_cons]
    obtain ⟨entries, rfl, ⟨f, hk, rfl, -⟩ | ⟨e, hk, rfl, -⟩ | ⟨r, hk, rfl, -⟩ | ⟨hk, rfl⟩⟩ := readItem_cases hr
    · rw [if_pos (by rw [hk]; decide)]
      exact ih
    · rw [if_pos (by rw [hk]; decide)]
      exact ih
    · rw [if_pos (by rw [hk]; decide)]
      exact ih
    · rw [if_neg (by exact hk)]
      exact .cons ⟨entries, rfl, rfl⟩ ih

theorem sortsItems_of_readItems {items : List Value} {records : List ItemRecord}
    (h : (readItems 0 items).result = .ok records) : SortsItems items (records.filterMap ItemRecord.function?)
      (records.filterMap ItemRecord.event?) (records.filterMap ItemRecord.error?) (readItems 0 items).notices := by
  have hf : List.Forall₂ (ReadsAs readFunction) (items.filter (ItemKind.of · = .function))
      (records.filterMap ItemRecord.function?) := by
    refine picks_functions.forall₂ (fun hr ha => ?_) h
    obtain ⟨entries, hitem, hread⟩ := readItem_eq_ok hr
    cases function?_eq_some _ _ ha
    exact ⟨entries, hitem, hitem ▸ hread.2⟩
  have he : List.Forall₂ (ReadsAs readEvent) (items.filter (ItemKind.of · = .event))
      (records.filterMap ItemRecord.event?) := by
    refine picks_events.forall₂ (fun hr ha => ?_) h
    obtain ⟨entries, hitem, hread⟩ := readItem_eq_ok hr
    cases event?_eq_some _ _ ha
    exact ⟨entries, hitem, hitem ▸ hread.2⟩
  have hr : List.Forall₂ (ReadsAs readError) (items.filter (ItemKind.of · = .error))
      (records.filterMap ItemRecord.error?) := by
    refine picks_errors.forall₂ (fun hr ha => ?_) h
    obtain ⟨entries, hitem, hread⟩ := readItem_eq_ok hr
    cases error?_eq_some _ _ ha
    exact ⟨entries, hitem, hitem ▸ hread.2⟩
  have hs := saysSkipped_readItems h
  refine ⟨hf, he, hr, hs, ?_⟩
  rw [← hf.length_eq, ← he.length_eq, ← hr.length_eq, ← hs.length_eq]
  exact length_kinds items

/-! ## Interfaces -/

theorem readInterface_list (items : List Value) (contractName : Value) : readInterface (.list items) contractName =
    Interface.ofItems (contractName.orElse defaultContractName) <$> readItems 0 items := by
  rw [map_eq_pure_bind]
  rfl

section Interfaces

variable {xs ys items : List Value} (contractName : Value)

theorem readInterface_list_eq_ok {i : Interface} : (readInterface (.list items) contractName).result = .ok i ↔
    ∃ records, (readItems 0 items).result = .ok records ∧
      Interface.ofItems (contractName.orElse defaultContractName) records = i := by
  rw [readInterface_list, Outcome.map_eq_ok]

theorem readInterface_list_eq_error {failure : Failure} :
    (readInterface (.list items) contractName).result = .error failure ↔
      (readItems 0 items).result = .error failure := by
  rw [readInterface_list, Outcome.map_eq_error]

/-- What comes of items behind others is known from what comes of them alone. -/
theorem result_readItems_behind (n : Nat) (items : List Value) :
    (readItems (0 + n) items).result = (readItems 0 items).result.mapError (Failure.shifted n) := by
  rw [Nat.add_comm, readItems_shifted]
  rfl

theorem readInterface_append_ok {fs fs' : List FunctionRecord} {es es' : List EventRecord} {rs rs' : List ErrorRecord}
    (hx : (readInterface (.list xs) contractName).result =
      .ok (.ofRecords (contractName.orElse defaultContractName) fs es rs))
    (hy : (readInterface (.list ys) contractName).result =
      .ok (.ofRecords (contractName.orElse defaultContractName) fs' es' rs')) :
    (readInterface (.list (xs ++ ys)) contractName).result =
      .ok (.ofRecords (contractName.orElse defaultContractName) (fs ++ fs') (es ++ es') (rs ++ rs')) := by
  obtain ⟨records, hrecords, hi⟩ := (readInterface_list_eq_ok contractName).1 hx
  obtain ⟨records', hrecords', hj⟩ := (readInterface_list_eq_ok contractName).1 hy
  obtain ⟨rfl, rfl, rfl⟩ := ofRecords_inj hi
  obtain ⟨rfl, rfl, rfl⟩ := ofRecords_inj hj
  have hbehind : (readItems (0 + xs.length) ys).result = .ok records' := by
    rw [result_readItems_behind, hrecords']
    rfl
  refine (readInterface_list_eq_ok contractName).2 ⟨records ++ records', ?_, ?_⟩
  · rw [readItems_append, Outcome.bind_of_ok hrecords, Outcome.bind_of_ok hbehind]
    rfl
  · simp only [Interface.ofItems_eq, List.filterMap_append]

theorem readInterface_append_of_error {failure : Failure}
    (hx : (readInterface (.list xs) contractName).result = .error failure) :
    (readInterface (.list (xs ++ ys)) contractName).result = .error failure := by
  rw [readInterface_list_eq_error] at hx ⊢
  rw [readItems_append, Outcome.bind_of_error hx]

theorem readInterface_append_of_later_error {failure : Failure}
    (hx : (readInterface (.list xs) contractName).Succeeds)
    (hy : (readInterface (.list ys) contractName).result = .error failure) :
    (readInterface (.list (xs ++ ys)) contractName).result = .error (failure.shifted xs.length) := by
  obtain ⟨i, hx⟩ := hx
  obtain ⟨records, hx, -⟩ := (readInterface_list_eq_ok contractName).1 hx
  rw [readInterface_list_eq_error] at hy ⊢
  have hbehind : (readItems (0 + xs.length) ys).result = .error (failure.shifted xs.length) := by
    rw [result_readItems_behind, hy]
    rfl
  rw [readItems_append, Outcome.bind_of_ok hx, Outcome.bind_of_error hbehind]

/-- An interface consists of what the items of each kind are read as. -/
theorem sortsItems_of_readInterface {i : Interface} (h : (readInterface (.list items) contractName).result = .ok i) :
    ∃ fs es rs, i = .ofRecords (contractName.orElse defaultContractName) fs es rs ∧
      SortsItems items fs es rs (readInterface (.list items) contractName).notices := by
  obtain ⟨records, hr, rfl⟩ := (readInterface_list_eq_ok contractName).1 h
  refine ⟨_, _, _, Interface.ofItems_eq _ _, ?_⟩
  rw [readInterface_list, Outcome.map_notices]
  exact sortsItems_of_readItems hr

/-- A list is not read because of the first item that cannot be read. -/
theorem readInterface_list_stops {failure : Failure} :
    (readInterface (.list items) contractName).result = .error failure ↔
      ∃ cause, StopsAt items 0 cause ∧ failure = inReading cause ∧ failure.stage = .reading := by
  rw [readInterface_list_eq_error]
  constructor
  · intro h
    obtain ⟨cause, hstop, hfailure⟩ := readItems_eq_error.1 h
    exact ⟨cause, hstop, hfailure, stage_readItems h⟩
  · rintro ⟨cause, hstop, hfailure, -⟩
    exact readItems_eq_error.2 ⟨cause, hstop, hfailure⟩

end Interfaces

/-- The interface of two lists put together is made of the records of both; a failure is that of the first list, or else
that of the second one further down. Every interface holds the records of the items of each kind, and every failure is
that of the first item that cannot be read. -/
theorem readInterface_append (xs ys : List Value) (contractName : Value) :
    let read := fun items => readInterface (.list items) contractName
    let interface := Interface.ofRecords (contractName.orElse defaultContractName)
    (∀ fs es rs fs' es' rs', (read xs).result = .ok (interface fs es rs) →
        (read ys).result = .ok (interface fs' es' rs') →
        (read (xs ++ ys)).result = .ok (interface (fs ++ fs') (es ++ es') (rs ++ rs'))) ∧
      (∀ failure, (read xs).result = .error failure → (read (xs ++ ys)).result = .error failure) ∧
      (∀ failure, (read xs).Succeeds → (read ys).result = .error failure →
        (read (xs ++ ys)).result = .error (failure.shifted xs.length)) ∧
      ∀ items, (∀ i, (read items).result = .ok i → ∃ fs es rs,
          i = interface fs es rs ∧ SortsItems items fs es rs (read items).notices) ∧
        ∀ failure, (read items).result = .error failure ↔
          ∃ cause, StopsAt items 0 cause ∧ failure = inReading cause ∧ failure.stage = .reading := by
  intro read interface
  refine ⟨?_, ?_, ?_, fun items => ⟨?_, ?_⟩⟩
  · exact fun fs es rs fs' es' rs' hx hy => readInterface_append_ok contractName hx hy
  · exact fun failure hx => readInterface_append_of_error contractName hx
  · exact fun failure hx hy => readInterface_append_of_later_error contractName hx hy
  · exact fun i h => sortsItems_of_readInterface contractName h
  · exact fun failure => readInterface_list_stops contractName

/-- Behind a receiver, what is no object is the second item. -/
theorem readInterface_append_receiver :
    (readInterface (.list ([.object [("type", "receive")]] ++ [.null])) .null).result = .error (.itemNotObject 1) :=
  (readInterface_append [.object [("type", "receive")]] [.null] .null).2.2.1 (.itemNotObject 0) ⟨_, rfl⟩ rfl

end Abi

end ContractApi
