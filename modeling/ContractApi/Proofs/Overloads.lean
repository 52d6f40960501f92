import ContractApi.Proofs.Collisions
import ContractApi.Proofs.References
/-!
# Which overload an operation refers to

Operations stand under a name and a method, but schemas under a name alone, and a function contributes what it takes
whether or not its own operation refers to it. An operation may therefore be described by what another function takes.

- The schema that an operation refers to is that of the last function of the same name that contributes one, among its
  own function and those after it (`LastOverload`, `Parts.surviving`). A function after it that has its name has the
  other method.
- This holds of every operation of every document that is assembled from an interface that was read
  (`surviving_operations`), and it need not be its own function (`not_own_request`).
-/

namespace ContractApi.OpenApi

open ContractApi.Abi

/-- Whether `g` is the last function with the name of `f` that contributes something, among `f` and those after it. If
none of those after it does, it is `f` itself. -/
inductive LastOverload (contributes : FunctionRecord → Bool) (f : FunctionRecord) (later : List FunctionRecord) :
    FunctionRecord → Prop where
  | own : (∀ g ∈ later, g.name = f.name → contributes g = false) → LastOverload contributes f later f
  | overwritten {between rest : List FunctionRecord} {g : FunctionRecord} : later = between ++ g :: rest →
      g.name = f.name → contributes g = true → (∀ h ∈ rest, h.name = f.name → contributes h = false) →
        LastOverload contributes f later g

section LastOverload

variable {contributes : FunctionRecord → Bool} {f g h : FunctionRecord} {later : List FunctionRecord}

/-- A function that comes last of all and contributes overwrites what was there. -/
theorem LastOverload.last (hn : h.name = f.name) (hc : contributes h = true) :
    LastOverload contributes f (later ++ [h]) h :=
  .overwritten rfl hn hc fun _ hmem => absurd hmem List.not_mem_nil

/-- Any other function that comes last of all changes nothing. -/
theorem LastOverload.concat (hl : LastOverload contributes f later g)
    (hh : h.name = f.name → contributes h = false) : LastOverload contributes f (later ++ [h]) g := by
  have hadd : ∀ {l : List FunctionRecord}, (∀ g ∈ l, g.name = f.name → contributes g = false) →
      ∀ g ∈ l ++ [h], g.name = f.name → contributes g = false := by
    intro l hl
    exact List.forall_mem_append.2 ⟨hl, List.forall_mem_singleton.2 hh⟩
  cases hl with
  | own hnone => exact .own (hadd hnone)
  | @overwritten between rest g heq hn hc hnone =>
    have heq' : later ++ [h] = between ++ g :: (rest ++ [h]) := by
      rw [heq, List.append_assoc, List.cons_append]
    exact .overwritten heq' hn hc (hadd hnone)

/-- The last function of a name that contributes, in a list that has such a function. -/
theorem exists_lastOverload (earlier : List FunctionRecord) (hf : contributes f = true)
    (hn : ∀ g ∈ later, g.name.display = f.name.display ↔ g.name = f.name) :
    ∃ g, (earlier ++ f :: later).findRev? (fun g => g.name.display = f.name.display ∧ contributes g) = some g ∧
      LastOverload contributes f later g := by
  -- the induction takes the function away that comes last, which is the one that is found if it qualifies
  induction later using List.reverseRecOn with
  | nil =>
    refine ⟨f, ?_, .own fun _ hmem => absurd hmem List.not_mem_nil⟩
    rw [Table.findRev?_concat, if_pos (decide_eq_true ⟨rfl, hf⟩)]
  | append_singleton later h ih =>
    have hh := hn h (List.mem_append_right _ (List.mem_singleton.2 rfl))
    rw [← List.cons_append, ← List.append_assoc, Table.findRev?_concat]
    by_cases hc : h.name.display = f.name.display ∧ contributes h = true
    · rw [if_pos (decide_eq_true hc)]
      exact ⟨h, rfl, .last (hh.1 hc.1) hc.2⟩
    · rw [if_neg (by simpa using hc)]
      obtain ⟨g, hg, hl⟩ := ih fun g hmem => hn g (List.mem_append_left _ hmem)
      refine ⟨g, hg, hl.concat fun hname => ?_⟩
      exact Bool.eq_false_iff.2 fun hcontributes => hc ⟨hh.2 hname, hcontributes⟩

end LastOverload

/-! ## What operations refer to -/

/-- Whether the operation refers to what was made, from the place given. -/
def RefersTo (document : Value) (o : Operation) (place : List Text) (made : Outcome Schema) : Prop :=
  ∃ ref s, o.toValue.at? place = some (.text ref) ∧ made.result = .ok s ∧ resolve? document ref = some s.toValue

/-- Whether the operation of the function is the one in the document, and refers to the schemas of the last functions of
its name that contribute them. -/
structure Survives (document : Value) (f : FunctionRecord) (later : List FunctionRecord) (o : Operation) : Prop where
  made : (Operation.ofFunction (.record f)).result = .ok o
  entry : document.at? ["paths", pathOf f.name, methodKey f] = some o.toValue
  last : ∀ g ∈ later, g.name = f.name → methodKey g ≠ methodKey f
  request : (o.toValue.at? ["requestBody"]).isSome = true → ∃ g,
    LastOverload (·.inputs.isPresent) f later g ∧ RefersTo document o requestReference (inputSchema (.record g))
  response : (o.toValue.at? ["responses", "200", "content"]).isSome = true → ∃ g,
    LastOverload (·.outputs.isPresent) f later g ∧ RefersTo document o responseReference (outputSchema (.record g))

namespace Parts

variable {fs : List FunctionRecord} {es : List EventRecord} {rs : List ErrorRecord} (parts : Parts fs es rs)

section Overloads

variable {earlier later : List FunctionRecord} {f : FunctionRecord}

include parts

/-- Under the name of a function stands what was made of the last overload that contributes it. -/
theorem overload_schema (kind : SchemaKind) (make : Slot FunctionRecord → Outcome Schema)
    {contributes : FunctionRecord → Bool} (hfs : fs = earlier ++ f :: later) (hf : contributes f = true)
    (hlast : ∀ name, lastSchema? fs es rs (kind, name) =
      (fs.findRev? fun g => g.name.display = name ∧ contributes g).bind fun g => (make (.record g)).value?)
    (hmade : ∀ g ∈ fs, contributes g = true → (make (.record g)).Succeeds) (contractName : Value) :
    ∃ g, LastOverload contributes f later g ∧ ∃ s, (make (.record g)).result = .ok s ∧
      resolve? (parts.document contractName).toValue (schemaReference (kind.key f.name.display)) = some s.toValue := by
  have hmem : ∀ g ∈ f :: later, g ∈ fs := by
    intro g hg
    rw [hfs]
    exact List.mem_append_right _ hg
  have htext : ∀ g ∈ f :: later, g.name.IsText := fun g hg =>
    (operationId_ofFunction (parts.operation_eq g (hmem g hg))).1
  have hn : ∀ g ∈ later, g.name.display = f.name.display ↔ g.name = f.name := fun g hg =>
    display_inj (htext g (List.mem_cons_of_mem _ hg)) (htext f List.mem_cons_self)
  obtain ⟨g, hg, hl⟩ := exists_lastOverload earlier hf hn
  rw [← hfs] at hg
  have hc : g.name.display = f.name.display ∧ contributes g = true :=
    of_decide_eq_true (Table.findRev?_some (p := fun g => decide (g.name.display = f.name.display ∧ contributes g)) hg)
  obtain ⟨s, hs⟩ := hmade g (Table.mem_of_findRev? hg) hc.2
  refine ⟨g, hl, s, hs, ?_⟩
  have hstored : Table.get? (kind.key f.name.display) (parts.document contractName).schemas = some s := by
    have hk : kind.key f.name.display = schemaKey (kind, f.name.display) := rfl
    rw [hk, parts.get?_schemas, hlast, hg, Option.bind_some, Outcome.value?_eq_some.2 hs]
  rw [resolve?_schemaReference, at?_schema, hstored, Option.map_some]

/-- The operation of the last function with its path and method survives. -/
theorem surviving (hfs : fs = earlier ++ f :: later)
    (hlast : ∀ g ∈ later, ¬(pathOf g.name = pathOf f.name ∧ methodKey g = methodKey f)) (contractName : Value) :
    Survives (parts.document contractName).toValue f later (parts.operation f) := by
  have hmem : f ∈ fs := by
    rw [hfs]
    exact List.mem_append_right _ List.mem_cons_self
  have hmade := parts.operation_eq f hmem
  have hfound : lastFunction? fs (pathOf f.name) (methodKey f) = some f := by
    have hnone : lastFunction? later (pathOf f.name) (methodKey f) = none :=
      Table.findRev?_eq_none.2 fun g hg h => hlast g hg (of_decide_eq_true h)
    unfold lastFunction? at hnone ⊢
    rw [hfs, ← List.singleton_append, Table.findRev?_append, Table.findRev?_append, hnone]
    simp
  refine ⟨hmade, ?_, fun g hg hname h => ?_, fun hbody => ?_, fun hcontent => ?_⟩
  · rw [at?_operation, parts.get?_paths, hfound, Option.map_some, Option.map_some]
  · exact hlast g hg ⟨by rw [hname], h⟩
  · rw [isSome_requestBody] at hbody
    obtain ⟨name, hname⟩ := Option.isSome_iff_exists.1 hbody
    obtain ⟨hi, _, rfl⟩ := (body?_requestOf (ofFunction_eq_ok hmade).1 name).1 hname
    obtain ⟨g, hl, s, hs, hstored⟩ := parts.overload_schema .request inputSchema hfs hi
      (fun _ => rfl) (fun g hg hi => ⟨_, parts.input_eq g hg hi⟩) contractName
    refine ⟨g, hl, _, s, ?_, hs, hstored⟩
    rw [at?_requestReference, hname]
    rfl
  · rw [isSome_content] at hcontent
    obtain ⟨name, hname⟩ := Option.isSome_iff_exists.1 hcontent
    obtain ⟨ho, rfl⟩ := (response_ofFunction hmade name).1 hname
    obtain ⟨g, hl, s, hs, hstored⟩ := parts.overload_schema .response outputSchema hfs ho
      (fun _ => rfl) (fun g hg ho => ⟨_, parts.output_eq g hg ho⟩) contractName
    refine ⟨g, hl, _, s, ?_, hs, hstored⟩
    rw [at?_responseReference, hname]
    rfl

end Overloads

end Parts

/-- Every operation of a document that was assembled from an interface that was read was made of the last function with
its path and method, and refers to the schemas of the last overloads that contribute them, among that function and
those after it. -/
theorem surviving_operations {raw contractName strict : Value} {i : Interface} {d : Document}
    (hi : (readInterface raw contractName).result = .ok i) (hd : (assemble (.record i) strict).result = .ok d) :
    ∃ fs, i.functions = .list (fs.map .record) ∧ ∀ path operations, (path, operations) ∈ d.paths →
      ∀ method o, (method, o) ∈ operations → ∃ earlier f later, fs = earlier ++ f :: later ∧
        pathOf f.name = path ∧ methodKey f = method ∧ Survives d.toValue f later o := by
  obtain ⟨items, records, _, hr, rfl⟩ := readInterface_eq_ok.1 hi
  rw [Interface.ofItems_eq] at hd ⊢
  have hb := (assemble_eq_ok.1 hd).1
  obtain ⟨parts⟩ := exists_parts_of_built hb
  cases (parts.buildDocument_eq _).symm.trans hb
  refine ⟨_, rfl, fun path operations hp method o ho => ?_⟩
  obtain ⟨f, hf, rfl⟩ := parts.mem_paths hp ho
  obtain ⟨_, rfl, rfl⟩ := lastFunction?_some hf
  obtain ⟨_, earlier, later, hfs, hlast⟩ := Table.findRev?_eq_some.1 hf
  exact ⟨earlier, f, later, hfs, rfl, rfl, parts.surviving hfs (fun g hg => of_decide_eq_false (hlast g hg)) _⟩

/-- Two functions of one name that both take something, of which only the first one changes the state. -/
def minted : Value := .list [
  .object [("type", "function"), ("name", "mint"), ("inputs", .list [.object [("name", "to"), ("type", "address")]])],
  .object [("type", "function"), ("name", "mint"), ("stateMutability", "view"),
    ("inputs", .list [.object [("name", "id"), ("type", "uint256")]])]]

theorem surviving_operations_minted : ∃ i d, (readInterface minted .null).result = .ok i ∧
    (assemble (.record i) (.bool false)).result = .ok d ∧ ∃ path operations, (path, operations) ∈ d.paths ∧
      ∃ method o, (method, o) ∈ operations ∧ ∃ f later, Survives d.toValue f later o := by
  have h : ∀ i d, (readInterface minted .null).result = .ok i → (assemble (.record i) (.bool false)).result = .ok d →
      ∀ path operations, (path, operations) ∈ d.paths → ∀ method o, (method, o) ∈ operations →
        ∃ f later, Survives d.toValue f later o := by
    intro i d hi hd path operations hp method o ho
    obtain ⟨fs, _, h⟩ := surviving_operations hi hd
    obtain ⟨_, f, later, _, _, _, hs⟩ := h path operations hp method o ho
    exact ⟨f, later, hs⟩
  refine ⟨_, _, rfl, rfl, _, _, List.mem_cons_self, _, _, List.mem_cons_self, ?_⟩
  exact h _ _ rfl rfl _ _ List.mem_cons_self _ _ List.mem_cons_self

/-- An operation that was made of the last function with its path and method need not refer to what that function takes:
the function that comes after it takes something, too, and has written the schema of the name. -/
theorem not_own_request : ∃ i d f g o, (readInterface minted .null).result = .ok i ∧
    (assemble (.record i) (.bool false)).result = .ok d ∧ i.functions = .list ([f, g].map .record) ∧
    lastFunction? [f, g] "/contract/mint" "post" = some f ∧ (Operation.ofFunction (.record f)).result = .ok o ∧
    d.toValue.at? ["paths", "/contract/mint", "post"] = some o.toValue ∧
    (o.toValue.at? ["requestBody"]).isSome = true ∧
    RefersTo d.toValue o requestReference (inputSchema (.record g)) ∧
    ¬RefersTo d.toValue o requestReference (inputSchema (.record f)) := by
  refine ⟨_, _, _, _, _, rfl, rfl, rfl, rfl, rfl, rfl, rfl, ⟨_, _, rfl, rfl, rfl⟩, ?_⟩
  rintro ⟨ref, s, href, hs, hres⟩
  cases hs
  cases href
  -- the schema has a property for the input of the other function
  have hid := congrArg (fun v => (v.bind (Value.at? ["properties", "id"])).isSome) hres
  exact absurd hid (by decide +kernel)

end ContractApi.OpenApi
