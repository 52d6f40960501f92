import ContractApi.Proofs.Table
import ContractApi.Proofs.WellFormed
/-!
# What is entered into a document, and where

- A `Place` is where an entry stands. An entry collides exactly if its place is occupied (`collides_iff`), and writing it
  occupies that place and no other (`occupied_write`).
- Entering a list of entries succeeds exactly if each of them can be made; the document is then what their writes leave
  (`enterAll_eq_ok`), and the collisions are the places that repeat (`collisions_enterAll`).
- The document is told apart into the operations and the schemas (`foldl_write`).
- A document is assembled exactly if it can be built and, in strict mode, nothing collides (`assemble_eq_ok`).
-/

namespace ContractApi.OpenApi

open ContractApi.Abi

/-! ## Places -/

/-- Where an entry of a document stands. -/
inductive Place where
  | operation (path method : Text)
  | schema (name : Text)
deriving DecidableEq

/-- How a collision in the place is reported. -/
def Place.collisionName : Place → Text
  | operation path method => "operation " ++ path ++ " " ++ method
  | schema name => "schema " ++ name

def DocumentEntry.place : DocumentEntry → Place
  | operation path method _ => .operation path method
  | schema name _ => .schema name

/-- Whether something stands in the place. -/
def Document.Occupied (d : Document) : Place → Prop
  | .operation path method => method ∈ Table.keys ((Table.get? path d.paths).getD [])
  | .schema name => name ∈ Table.keys d.schemas

theorem DocumentEntry.collisionName_eq (e : DocumentEntry) : e.collisionName = e.place.collisionName := by
  cases e <;> rfl

theorem DocumentEntry.collides_iff (d : Document) (e : DocumentEntry) : e.collides d = true ↔ d.Occupied e.place := by
  cases e with
  | operation path method o => exact Table.contains_iff _ _
  | schema name s => exact Table.contains_iff _ _

/-- A write occupies its own place and no other. -/
theorem DocumentEntry.occupied_write (d : Document) (e : DocumentEntry) (p : Place) :
    (e.write d).Occupied p ↔ p = e.place ∨ d.Occupied p := by
  cases e with
  | schema name s =>
    cases p with
    | operation path method => simp [write, Document.Occupied, place]
    | schema name' => simp [write, Document.Occupied, place, Table.mem_keys_insert]
  | operation path method o =>
    cases p with
    | schema name => simp [write, Document.Occupied, place]
    | operation path' method' =>
      simp only [write, Document.Occupied, place, Table.get?_insert, Place.operation.injEq]
      by_cases h : path = path'
      · subst h
        simp [Table.mem_keys_insert]
      · simp [h, Ne.symm h]

theorem not_occupied_empty (name : Value) (p : Place) : ¬(Document.empty name).Occupied p := by
  cases p <;> simp [Document.empty, Document.Occupied, Table.keys, Table.get?]

/-! ## Repetitions -/

/-- The elements that have occurred before, where some count as having occurred already. -/
def repeatsAfter {α : Type} [DecidableEq α] (seen : List α) : List α → List α
  | [] => []
  | a :: rest => if a ∈ seen then a :: repeatsAfter seen rest else repeatsAfter (a :: seen) rest

/-- The elements that have occurred before, in order, as often as they occur again. -/
def repeats {α : Type} [DecidableEq α] (l : List α) : List α := repeatsAfter [] l

/-- Nothing repeats exactly if all elements are new and different. -/
theorem repeatsAfter_eq_nil {α : Type} [DecidableEq α] : ∀ {seen l : List α},
    repeatsAfter seen l = [] ↔ l.Nodup ∧ ∀ a ∈ l, a ∉ seen
  | seen, [] => by simp [repeatsAfter]
  | seen, a :: l => by
    by_cases h : a ∈ seen
    · simp [repeatsAfter, h]
    · rw [repeatsAfter, if_neg h, repeatsAfter_eq_nil, List.nodup_cons]
      constructor
      · rintro ⟨hn, hl⟩
        refine ⟨⟨fun ha => hl a ha List.mem_cons_self, hn⟩, fun b hb => ?_⟩
        rcases List.mem_cons.1 hb with rfl | hb
        · exact h
        · exact fun hs => hl b hb (List.mem_cons_of_mem _ hs)
      · rintro ⟨⟨ha, hn⟩, hl⟩
        refine ⟨hn, fun b hb hs => ?_⟩
        rcases List.mem_cons.1 hs with rfl | hs
        · exact ha hb
        · exact hl b (List.mem_cons_of_mem _ hb) hs

theorem repeats_eq_nil {α : Type} [DecidableEq α] {l : List α} : repeats l = [] ↔ l.Nodup := by
  simp [repeats, repeatsAfter_eq_nil]

theorem repeatsAfter_subset {α : Type} [DecidableEq α] : ∀ (seen l : List α), repeatsAfter seen l ⊆ l
  | _, [] => List.Subset.refl []
  | seen, a :: l => by
    rw [repeatsAfter]
    split_ifs
    · exact List.cons_subset_cons a (repeatsAfter_subset seen l)
    · exact List.subset_cons_of_subset a (repeatsAfter_subset (a :: seen) l)

/-! ## Entering -/

/-- The entries up to the first that cannot be made. -/
def entered : List (Outcome DocumentEntry) → List DocumentEntry
  | [] => []
  | o :: rest =>
    match o.value? with
    | some e => e :: entered rest
    | none => []

theorem entered_of_succeeds : ∀ {os : List (Outcome DocumentEntry)}, (∀ o ∈ os, o.Succeeds) →
    entered os = os.filterMap Outcome.value?
  | [], _ => rfl
  | o :: os, h => by
    obtain ⟨e, he⟩ := h o List.mem_cons_self
    have ih := entered_of_succeeds fun o' ho' => h o' (List.mem_cons_of_mem _ ho')
    rw [List.filterMap_cons_some (Outcome.value?_eq_some.2 he), ← ih, entered, Outcome.value?_eq_some.2 he]

theorem enter_result (d : Document) (e : DocumentEntry) : (e.enter d).result = .ok (e.write d) := rfl

/-- Entering succeeds exactly if every entry can be made, and leaves what the writes leave. -/
theorem enterAll_eq_ok : ∀ {os : List (Outcome DocumentEntry)} {d d' : Document},
    (enterAll d os).result = .ok d' ↔
      (∀ o ∈ os, o.Succeeds) ∧ d' = (os.filterMap Outcome.value?).foldl DocumentEntry.write d
  | [], d, d' => by simp [enterAll, eq_comm]
  | o :: os, d, d' => by
    rw [enterAll, Outcome.bind_eq_ok]
    constructor
    · rintro ⟨e, he, h⟩
      obtain ⟨d₁, hd₁, h⟩ := Outcome.bind_eq_ok.1 h
      cases hd₁
      obtain ⟨hs, rfl⟩ := enterAll_eq_ok.1 h
      refine ⟨fun o' ho' => ?_, ?_⟩
      · rcases List.mem_cons.1 ho' with rfl | ho'
        · exact ⟨e, he⟩
        · exact hs o' ho'
      · rw [List.filterMap_cons_some (Outcome.value?_eq_some.2 he), List.foldl_cons]
    · rintro ⟨hs, rfl⟩
      obtain ⟨e, he⟩ := hs o List.mem_cons_self
      refine ⟨e, he, Outcome.bind_eq_ok.2 ⟨_, enter_result d e, enterAll_eq_ok.2 ⟨?_, ?_⟩⟩⟩
      · exact fun o' ho' => hs o' (List.mem_cons_of_mem _ ho')
      · rw [List.filterMap_cons_some (Outcome.value?_eq_some.2 he), List.foldl_cons]

theorem collision?_quiet {α : Type} {o : Outcome α} (h : o.Quiet) : o.notices.filterMap collision? = [] := by
  refine List.filterMap_eq_nil_iff.2 fun n hn => ?_
  obtain ⟨type, rfl⟩ := h n hn
  rfl

theorem collision?_enter (d : Document) (e : DocumentEntry) :
    (e.enter d).notices.filterMap collision? = if e.collides d then [e.place.collisionName] else [] := by
  rw [← e.collisionName_eq]
  unfold DocumentEntry.enter
  split <;> rfl

/-- The collisions of a run are the places that repeat, up to the first entry that cannot be made. -/
theorem collisions_enterAll : ∀ {os : List (Outcome DocumentEntry)} {d : Document} {seen : List Place},
    (∀ o ∈ os, o.Quiet) → (∀ p, p ∈ seen ↔ d.Occupied p) →
      (enterAll d os).notices.filterMap collision? =
        (repeatsAfter seen ((entered os).map DocumentEntry.place)).map Place.collisionName
  | [], _, _, _, _ => rfl
  | o :: os, d, seen, hq, hs => by
    have hqo := collision?_quiet (hq o List.mem_cons_self)
    cases ho : o.result with
    | error failure =>
      have hv : o.value? = none := by simp [Outcome.value?, ho, Except.toOption]
      rw [enterAll, Outcome.bind_of_error ho, hqo, entered, hv]
      rfl
    | ok e =>
      have hv := Outcome.value?_eq_some.2 ho
      have hrest : ∀ o' ∈ os, o'.Quiet := fun o' ho' => hq o' (List.mem_cons_of_mem _ ho')
      rw [enterAll, Outcome.bind_of_ok ho, List.filterMap_append, hqo, List.nil_append,
        Outcome.bind_of_ok (enter_result d e), List.filterMap_append, collision?_enter, entered, hv, List.map_cons,
        repeatsAfter]
      by_cases hc : d.Occupied e.place
      · -- the place stays occupied, and no other is added
        rw [if_pos ((e.collides_iff d).2 hc), if_pos ((hs _).2 hc), List.map_cons,
          collisions_enterAll hrest fun p => ?_]
        · rfl
        · rw [DocumentEntry.occupied_write, hs]
          exact ⟨.inr, fun h => h.elim (fun e => e ▸ hc) id⟩
      · rw [if_neg fun h => hc ((e.collides_iff d).1 h), if_neg fun h => hc ((hs _).1 h),
          collisions_enterAll hrest fun p => ?_]
        · rfl
        · rw [DocumentEntry.occupied_write, List.mem_cons, hs]

/-- All that a run tells of is types that lie too deep and entries that were overwritten. -/
theorem notices_enterAll : ∀ {os : List (Outcome DocumentEntry)} {d : Document}, (∀ o ∈ os, o.Quiet) →
    ∀ n ∈ (enterAll d os).notices, (∃ type, n = .typeTooDeep type) ∨ ∃ name, n = .overwriting name
  | [], _, _, n, hn => absurd hn List.not_mem_nil
  | o :: os, d, hq, n, hn => by
    have hqo := hq o List.mem_cons_self
    cases ho : o.result with
    | error failure =>
      rw [enterAll, Outcome.bind_of_error ho] at hn
      exact .inl (hqo n hn)
    | ok e =>
      rw [enterAll, Outcome.bind_of_ok ho, Outcome.bind_of_ok (enter_result d e), List.mem_append,
        List.mem_append] at hn
      rcases hn with hn | hn | hn
      · exact .inl (hqo n hn)
      · unfold DocumentEntry.enter at hn
        split at hn
        · exact .inr ⟨_, List.mem_singleton.1 hn⟩
        · cases hn
      · exact notices_enterAll (fun o' ho' => hq o' (List.mem_cons_of_mem _ ho')) n hn

/-- A run fails only where the making of an entry does. -/
theorem onlyFaults_enterAll : ∀ {os : List (Outcome DocumentEntry)} {d : Document}, (∀ o ∈ os, o.OnlyFaults) →
    (enterAll d os).OnlyFaults
  | [], d, _ => (Outcome.tame_pure d).onlyFaults
  | o :: os, d, h => by
    obtain ⟨ho, hos⟩ := List.forall_mem_cons.1 h
    refine ho.bind fun e => Outcome.OnlyFaults.bind ?_ fun d' => onlyFaults_enterAll hos
    intro failure hfailure
    rw [enter_result] at hfailure
    cases hfailure

/-- Whether the notice comes from building documents. -/
def fromAssembler (n : Notice) : Prop := n.source = Text.ofString "abi2openapi.openapi.assembler"

instance : DecidablePred fromAssembler := fun n => inferInstanceAs (Decidable (n.source = _))

theorem fromAssembler_iff (n : Notice) : fromAssembler n ↔ ∃ name, n = .overwriting name := by
  cases n <;> simp +decide [fromAssembler, Notice.source]

/-- The notices that come from building documents are those of collisions. -/
theorem filter_fromAssembler : ∀ ns : List Notice,
    (ns.filter fun n => fromAssembler n) = (ns.filterMap collision?).map .overwriting
  | [] => rfl
  | n :: ns => by
    have ih := filter_fromAssembler ns
    by_cases h : fromAssembler n
    · rw [List.filter_cons_of_pos (by simpa using h), ih]
      obtain ⟨name, rfl⟩ := (fromAssembler_iff n).1 h
      rfl
    · have hc : collision? n = none := by
        cases n with
        | overwriting name => exact absurd rfl h
        | _ => rfl
      rw [List.filter_cons_of_neg (by simpa using h), ih, List.filterMap_cons_none hc]

/-! ## Operations and schemas -/

/-- What an entry writes to the operations. -/
def DocumentEntry.operation? : DocumentEntry → Option (Text × Text × Operation)
  | operation path method o => some (path, method, o)
  | schema .. => none

/-- What an entry writes to the schemas. -/
def DocumentEntry.schema? : DocumentEntry → Option (Text × Schema)
  | operation .. => none
  | schema name s => some (name, s)

theorem foldl_write (es : List DocumentEntry) (name : Value) : es.foldl DocumentEntry.write (.empty name) =
    ⟨name, Table.ofNested (es.filterMap DocumentEntry.operation?), Table.ofList (es.filterMap DocumentEntry.schema?)⟩ := by
  induction es using List.reverseRecOn with
  | nil => rfl
  | append_singleton es e ih =>
    rw [List.foldl_append, ih, List.filterMap_append, List.filterMap_append]
    cases e with
    | operation path method o =>
      have ho : [DocumentEntry.operation path method o].filterMap DocumentEntry.operation? = [(path, method, o)] := rfl
      have hs : [DocumentEntry.operation path method o].filterMap DocumentEntry.schema? = [] := rfl
      rw [ho, hs, Table.ofNested_concat, List.append_nil]
      rfl
    | schema name s =>
      have ho : [DocumentEntry.schema name s].filterMap DocumentEntry.operation? = [] := rfl
      have hs : [DocumentEntry.schema name s].filterMap DocumentEntry.schema? = [(name, s)] := rfl
      rw [ho, hs, Table.ofList_concat, List.append_nil]
      rfl

/-! ## Assembling -/

/-- What collides when the document of an interface is built. -/
def collisionsOf (i : Interface) : List Text := (buildDocument (.record i)).notices.filterMap collision?

/-- The collisions of an interface that stop its document from being assembled. -/
theorem assemble_of_built {i : Interface} {d : Document} (h : (buildDocument (.record i)).result = .ok d)
    (strict : Value) : (assemble (.record i) strict).result =
      if strict.isTruthy && !(collisionsOf i).isEmpty then .error (.collisions (collisionsOf i)) else .ok d := by
  simp only [assemble, Assembler.build, Outcome.mapFailure, Outcome.bind_of_ok h, List.nil_append]
  change Except.mapError _ (Outcome.result (if strict.isTruthy && !(collisionsOf i).isEmpty then _ else _)) = _
  split <;> rfl

theorem assemble_of_failed {i : Interface} {failure : Failure}
    (h : (buildDocument (.record i)).result = .error failure) (strict : Value) :
    (assemble (.record i) strict).result = .error (inAssembling failure) := by
  simp only [assemble, Assembler.build, Outcome.mapFailure, Outcome.bind_of_error h]
  rfl

theorem notices_assemble (i : Interface) (strict : Value) :
    (assemble (.record i) strict).notices = (buildDocument (.record i)).notices := by
  simp only [assemble, Assembler.build, Outcome.mapFailure]
  cases h : (buildDocument (.record i)).result with
  | error failure => rw [Outcome.bind_of_error h]
  | ok d =>
    rw [Outcome.bind_of_ok h]
    split <;> exact List.append_nil _

/-- A document is assembled exactly if it can be built and no collision forbids it. -/
theorem assemble_eq_ok {i : Interface} {strict : Value} {d : Document} : (assemble (.record i) strict).result = .ok d ↔
    (buildDocument (.record i)).result = .ok d ∧ (strict.isTruthy = true → collisionsOf i = []) := by
  cases h : (buildDocument (.record i)).result with
  | error failure => simp [assemble_of_failed h]
  | ok d' =>
    rw [assemble_of_built h]
    by_cases hs : strict.isTruthy = true <;> by_cases hc : collisionsOf i = [] <;> simp [hs, hc]

theorem buildDocument_eq_ok {i : Interface} {d : Document} : (buildDocument (.record i)).result = .ok d ↔
    (∀ o ∈ documentEntries i, o.Succeeds) ∧
      d = ((documentEntries i).filterMap Outcome.value?).foldl DocumentEntry.write (.empty i.contractName) :=
  enterAll_eq_ok

end ContractApi.OpenApi
