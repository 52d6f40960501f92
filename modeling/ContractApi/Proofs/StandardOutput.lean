import ContractApi.Proofs.Collisions
import ContractApi.Proofs.Defaults
import ContractApi.Proofs.JsonGrammar
import ContractApi.Proofs.Nesting
import ContractApi.Proofs.Recomputed
import ContractApi.Proofs.Snapshots
import ContractApi.Proofs.Streams
import ContractApi.Proofs.WrittenAscii
import ContractApi.Proofs.WrittenDocument
/-!
# What is printed for a document

- By default warnings are told, each on a line in front of everything else. Reading a document gives none, and describing
  it gives nothing else.
- The names of what was read were hashed, so they are plain texts (`plain_collisionName`), and a warning that something
  is described twice is always shown. A type was not: a warning that it lies too deep is lost if the standard output does
  not take the type (`all_lost_iff`).
- A command that names nothing but a document and ends without fault tells the warnings and then prints the description
  (`run_prints_description`).
-/

namespace ContractApi

open Abi OpenApi Output

/-- By default every level of a JSON text is indented by four spaces. -/
theorem toJson_indented (v : Value) : (Json.toJson (.value v) (.int 4)).result = .ok (Json.write (.spaces 4) v) :=
  Json.result_toJson v rfl

/-- A JSON text is taken, as it is ASCII. -/
theorem takes_of_toJson {capacity : Capacity} {v : Value} {text : Text}
    (h : (Json.toJson (.value v) (.int 4)).result = .ok text) : capacity.Takes text := by
  cases (toJson_indented v).symm.trans h
  have hb : (Json.Layout.spaces 4).Blank := trivial
  exact Capacity.takes_of_plain (Json.ascii_write hb v).plain

namespace CommandLine

theorem readSource_state (source : Text) (w : World) : (readSource (m := StateM World) source w).2 = w := by
  unfold readSource
  split
  · rfl
  · rw [stateM_bind]
    generalize (Surroundings.readFile (m := StateM World) source w).1 = content
    rcases content with ⟨_ | _⟩ | _ <;> rfl

/-- Reading the document prints nothing and leaves everything as it is. -/
theorem readDocument_eq (source : Text) (w : World) : readDocument (m := StateM World) source w =
    ((readSource (m := StateM World) source w).1.bind (parseDocument w.capacity.levels), w) := by
  rw [readDocument, stateM_bind, readSource_state]
  rfl

theorem readDocument_state (source : Text) (w : World) : (readDocument (m := StateM World) source w).2 = w := by
  rw [readDocument_eq]

end CommandLine

/-! ## What is told on the way -/

/-- A conversion that succeeds has read the interface, keeps it, and tells what reading and describing it tell. -/
theorem run_of_success {raw contractName strict v : Value}
    (h : (convert raw contractName strict).result = .ok (.success v)) : ∃ i d,
      (readInterface raw contractName).result = .ok i ∧ (assemble (.record i) strict).result = .ok d ∧
        v = d.toValue ∧ (Conversion.run { raw, contractName, strict }).2.parsed = some (.record i) ∧
        (convert raw contractName strict).notices =
          (readInterface raw contractName).notices ++ (assemble (.record i) strict).notices := by
  obtain ⟨i, d, hi, hd, hv⟩ := exists_described h
  have hr : ¬IsRejected raw := fun hr => by cases (convert_of_rejected hr contractName strict).symm.trans h
  have hdescribed : (Document.toValue <$> description raw contractName strict).result = .ok d.toValue :=
    Outcome.map_eq_ok.2 ⟨d, description_eq_ok.2 ⟨i, hi, hd⟩, rfl⟩
  refine ⟨i, d, hi, hd, hv, ?_, ?_⟩
  · rw [run_of_valid hr, Conversion.getDocument_state]
    simp [Conversion.currentParsed?, Outcome.value?_eq_some.2 hi]
  · rw [convert_of_valid hr, resultOf_of_described hdescribed, Outcome.map_notices, description,
      Outcome.bind_of_ok hi]

namespace CommandLine

/-- A writer of neither files nor headers prints the lines alone. -/
theorem run_write {ε : Type} {writer : Writer} (hf : writer.toFiles = false) (hh : writer.several = false)
    {line : Text} (file : Text) {w : World} (ht : w.capacity.Takes line) :
    (writer.run [.write line file] : StateM World (Writer.Course ε)) w =
      ({ trail := [writer], last := writer }, w.printed (line ++ "\n")) := by
  have hheader : writer.needsHeader file = false := by simp [Writer.needsHeader, hh]
  have hprinted : writer.printed line file = line ++ "\n" := by simp [Writer.printed, hheader]
  have hafter : writer.afterPrinting file = writer := by simp [Writer.afterPrinting, hheader]
  have hheading : writer.needsHeader file = true → w.capacity.Takes (writer.heading file) := by simp [hheader]
  rw [Writer.run, if_neg (by simp [hf]), Writer.runSteps, stateM_bind, Writer.write_of_takes hheading hf ht, hprinted,
    hafter]
  rfl

section Defaults

variable {settings : Settings} (hs : settings.AreDefaults)

include hs

/-- By default the description is the only product, and it is printed without a header. -/
theorem writeProducts_eq {conversion : Conversion} {i : Interface} (hp : conversion.parsed = some (.record i))
    {document indent : Value} {text : Text} (ht : (Json.toJson (.value document) indent).result = .ok text)
    {w : World} (htakes : w.capacity.Takes text) :
    writeProducts (m := StateM World) settings conversion document indent w = (.ok (), w.printed (text ++ "\n")) := by
  have hname : conversion.getContractName.1.result = .ok i.contractName := by
    simp [Conversion.getContractName, Conversion.getParsed, hp]
  have hsteps : stepsOf settings conversion document indent = [.write text Product.description.file] := by
    have hlines : (linesOf conversion document indent .description).result = .ok [text] :=
      Outcome.bind_pure_eq_ok ht
    rw [stepsOf, hs.selected, List.flatMap_singleton, stepsOfProduct, hlines]
    rfl
  have hrun : ((Writer.ofSettings settings i.contractName).run [.write text Product.description.file] :
      StateM World (Writer.Course Failure)) w = _ := run_write hs.toFiles hs.selectsSeveral _ htakes
  rw [writeProducts, hname, hsteps]
  change (_ >>= _ : StateM World (Except Stop Unit)) w = _
  rw [stateM_bind, hrun]
  rfl

omit hs in
/-- What leads to no description does not end without fault. -/
theorem reportFailure_ne {indent : Value} {result : ConversionResult} (h : result.tag ≠ .success) (w : World) :
    (reportFailure (m := StateM World) settings indent result w).1 ≠ .ok 0 := by
  rw [reportFailure, stateM_bind]
  cases (Json.toJson (.value result.payload) indent).result with
  | error failure => exact fun h => by cases h
  | ok payload =>
    cases result with
    | success document => exact absurd rfl h
    | invalid _ _ | failed _ _ => exact fun h => by cases h

/-- A document is converted without fault only if the conversion succeeds. -/
theorem success_of_convertDocument {indent raw : Value} {w : World}
    (h : (convertDocument (m := StateM World) settings indent raw w).1 = .ok 0) :
    ∃ v, (convert raw .null (.bool false)).result = .ok (.success v) := by
  rw [convertDocument, hs.contractName, hs.strict] at h
  dsimp only at h
  rw [stateM_bind] at h
  rw [convert]
  cases hr : (Conversion.run { raw, contractName := .null, strict := .bool false }).1.result with
  | error failure =>
    rw [hr] at h
    cases h
  | ok result =>
    rw [hr] at h
    cases result with
    | success v => exact ⟨v, rfl⟩
    | invalid _ _ | failed _ _ => exact absurd h (reportFailure_ne (fun h => by cases h) _)

/-- A conversion that succeeds tells its notices and prints the description. -/
theorem convertDocument_eq {raw v : Value} {text : Text} (w : World)
    (hv : (convert raw .null (.bool false)).result = .ok (.success v))
    (ht : (Json.toJson (.value v) (.int 4)).result = .ok text) :
    convertDocument (m := StateM World) settings (.int 4) raw w =
      (.ok 0, (w.told (shown Level.warning.rank w.time (convert raw .null (.bool false)).notices)).printed
        (text ++ "\n")) := by
  obtain ⟨i, d, _, _, rfl, hp, _⟩ := run_of_success hv
  rw [convertDocument, hs.contractName, hs.strict]
  dsimp only
  rw [convert] at hv ⊢
  rw [stateM_bind, forM_tell_eq, hs.logLevel, hv]
  dsimp only
  rw [stateM_bind, writeProducts_eq hs hp ht (takes_of_toJson ht)]
  dsimp only
  rw [stateM_bind, tell_of_lt (by decide)]
  rfl

end Defaults

/-- Settings are not shown by default, and a document that is not read ends with a fault. -/
theorem runArguments_eq {arguments : Arguments} {environment : Environment}
    (hs : Settings.AreDefaults ⟨arguments.options, environment⟩) {w : World}
    (h : (runArguments (m := StateM World) arguments environment w).1 = .ok 0) : ∃ raw,
      (readDocument (m := StateM World) arguments.input w).1 = .ok raw ∧
        runArguments (m := StateM World) arguments environment w =
          convertDocument (m := StateM World) ⟨arguments.options, environment⟩ (.int 4) raw w := by
  have hearly : earlyText w.capacity (Settings.notices ⟨arguments.options, environment⟩) = [] := by
    refine earlyText_eq_nil fun n hn => ?_
    rw [hs.notices n hn]
    decide
  obtain ⟨description, hd⟩ := hs.describe
  have hread := readDocument_state arguments.input w
  rw [runArguments, stateM_bind, forM_tellEarly, hearly, World.complained_nil, hs.indent, hd] at h ⊢
  dsimp only at h ⊢
  rw [stateM_bind, hs.logLevel, tell_of_lt (by decide : Level.info.rank < Level.warning.rank)] at h ⊢
  dsimp only at h ⊢
  rw [stateM_bind, hread] at h ⊢
  cases hr : (readDocument (m := StateM World) arguments.input w).1 with
  | ok raw => exact ⟨raw, rfl, rfl⟩
  | error reason =>
    rw [hr] at h
    cases reason with
    | unreadable cause => cases h
    | stopped stop => cases h

/-- A command that names nothing but a document and ends without fault tells the notices of its conversion, from warnings
on, and prints the description. -/
theorem run_eq {file : Text} {arguments : Arguments} {environment : Environment} {w : World}
    (ha : Arguments.parse [file, "--nodotenv"] = .ok arguments) (he : Settings.NoVariables environment)
    (hr : (run (m := StateM World) [file, "--nodotenv"] environment w).1 = .ok 0) : ∃ raw v text,
      (readDocument (m := StateM World) arguments.input w).1 = .ok raw ∧
      (convert raw .null (.bool false)).result = .ok (.success v) ∧
      (Json.toJson (.value v) (.int 4)).result = .ok text ∧
      (run (m := StateM World) [file, "--nodotenv"] environment w).2 =
        (w.told (shown Level.warning.rank w.time (convert raw .null (.bool false)).notices)).printed
          (text ++ "\n") := by
  obtain ⟨⟨skips, hoptions⟩, _⟩ := parse_skipping ha
  have hs : Settings.AreDefaults ⟨arguments.options, environment⟩ := by
    rw [hoptions]
    exact Settings.areDefaults he
  rw [run, ha] at hr ⊢
  dsimp only at hr ⊢
  obtain ⟨raw, hread, heq⟩ := runArguments_eq hs hr
  rw [heq] at hr ⊢
  obtain ⟨v, hv⟩ := success_of_convertDocument hs hr
  rw [convertDocument_eq hs w hv (toJson_indented v)]
  exact ⟨raw, v, _, hread, hv, toJson_indented v, rfl⟩

end CommandLine

/-! ## Names that were hashed -/

namespace Abi

variable {entries : List (Key × Value)}

theorem plain_of_shortHash {t hash : Text} (h : shortHash t = .ok hash) : t.Plain := by
  have hr : Returns (shortHash t) := ⟨hash, h⟩
  rw [shortHash, returns_map] at hr
  exact (returns_signatureHash t).1 hr

/-- A name displays a plain text if it does so where one that counts as nothing is left out. -/
theorem plain_display_of_orElse {name : Value} (h : (name.orElse "").display.Plain) : name.display.Plain := by
  unfold Value.orElse at h
  split at h
  · exact h
  · cases name with
    | text t =>
      rename_i hempty
      have ht : t = [] := by simpa [Value.isTruthy] using hempty
      rw [ht]
      exact Text.plain_nil
    | _ => exact Value.plain_quoted _

/-- The name in a plain signature displays a plain text. -/
theorem plain_name_of_signature {t : Text} (h : canonicalSignature (.object entries) = .ok t) (hp : t.Plain) :
    ((Value.field "name" entries).orElse "").display.Plain := by
  obtain ⟨_, types, _, _, rfl⟩ := canonicalSignature_eq_ok h
  rw [signatureOf, signatureText, List.append_assoc, List.append_assoc] at hp
  exact (List.forall_mem_append.1 hp).1

theorem plain_name_function {f : FunctionRecord} (h : readFunction (.object entries) entries = .ok f) :
    f.name.display.Plain := by
  obtain ⟨hname, _, _, _, ⟨_, hselector, _⟩, _⟩ := readFunction_eq_ok h
  obtain ⟨t, ht, hhash⟩ := except_bind_eq_ok.1 hselector
  rw [← field_of_requiredEntry hname]
  exact plain_display_of_orElse (plain_name_of_signature ht (plain_of_shortHash hhash))

theorem plain_name_event {e : EventRecord} (h : readEvent (.object entries) entries = .ok e) :
    e.name.display.Plain := by
  obtain ⟨hname, _, _, _, htopic, _⟩ := readEvent_eq_ok h
  obtain ⟨t, ht, hhash⟩ := except_bind_eq_ok.1 htopic
  rw [← field_of_requiredEntry hname]
  exact plain_display_of_orElse (plain_name_of_signature ht ((returns_signatureHash t).1 ⟨_, hhash⟩))

theorem plain_name_error {r : ErrorRecord} (h : readError (.object entries) entries = .ok r) :
    r.name.display.Plain := by
  obtain ⟨hname, _, _, _, hselector, _⟩ := readError_eq_ok h
  obtain ⟨t, ht, hhash⟩ := except_bind_eq_ok.1 hselector
  rw [hname]
  exact plain_name_of_signature ht (plain_of_shortHash hhash)

end Abi

/-- A schema is called by a plain text if what it is of is. -/
theorem plain_schemaName (kind : SchemaKind) {name : Text} (h : name.Plain) :
    (Place.schema (kind.key name)).collisionName.Plain := by
  have hkind : kind.ending.Plain := by cases kind <;> exact Text.plain_ofString _
  exact (Text.plain_ofString "schema ").append (h.append hkind)

/-- What is read is described under plain names. -/
theorem plain_collisionName {raw contractName : Value} {fs : List FunctionRecord} {es : List EventRecord}
    {rs : List ErrorRecord}
    (hi : (readInterface raw contractName).result = .ok (.ofRecords (contractNameOf raw contractName) fs es rs))
    {p : Place} (hp : p ∈ places fs es rs) : p.collisionName.Plain := by
  obtain ⟨_, fs', es', rs', _, heq, hf, he, hr⟩ := readInterface_records hi
  obtain ⟨rfl, rfl, rfl⟩ := ofRecords_inj heq
  rw [places, List.mem_append, List.mem_append, List.mem_flatMap, List.mem_map, List.mem_map] at hp
  obtain (⟨f, hmem, hp⟩ | ⟨e, hmem, rfl⟩) | ⟨r, hmem, rfl⟩ := hp
  · obtain ⟨entries, _, _, hread⟩ := hf f hmem
    have hname := plain_name_function hread
    rcases mem_functionPlaces.1 hp with rfl | ⟨_, rfl⟩ | ⟨_, rfl⟩
    · have hpath : (pathOf f.name).Plain := (Text.plain_ofString "/contract/").append hname
      exact (((Text.plain_ofString "operation ").append hpath).append (Text.plain_ofString " ")).append
        (plain_methodKey (httpMethod_of_readFunction hread))
    · exact plain_schemaName .request hname
    · exact plain_schemaName .response hname
  · obtain ⟨entries, _, _, hread⟩ := he e hmem
    exact plain_schemaName .event (plain_name_event hread)
  · obtain ⟨entries, _, _, hread⟩ := hr r hmem
    exact plain_schemaName .error (plain_name_error hread)

/-! ## Warnings -/

section Warnings

variable {raw contractName : Value} {fs : List FunctionRecord} {es : List EventRecord} {rs : List ErrorRecord}
  {d : Document}
  (hi : (readInterface raw contractName).result = .ok (.ofRecords (contractNameOf raw contractName) fs es rs))
  (hd : (assemble (.record (.ofRecords (contractNameOf raw contractName) fs es rs)) (.bool false)).result = .ok d)

/-- All that describing records tells of is entries that were overwritten and types that lie too deep. -/
theorem warning_of_assembled (contractName : Value) {n : Notice}
    (h : n ∈ (assemble (.record (.ofRecords contractName fs es rs)) (.bool false)).notices) :
    (∃ type, n = .typeTooDeep type) ∨ ∃ name, n = .overwriting name := by
  rw [notices_assemble] at h
  exact notices_enterAll (quiet_documentEntries contractName fs es rs) n h

include hi hd in
/-- All warnings are lost exactly if nothing is described twice and the standard output takes no type that lies too
deep. -/
theorem all_lost_iff {capacity : Capacity} {time : Text} (ht : time.Plain) :
    (∀ n ∈ (assemble (.record (.ofRecords (contractNameOf raw contractName) fs es rs)) (.bool false)).notices,
      ¬capacity.Takes (CommandLine.noticeLine time n)) ↔
    (places fs es rs).Nodup ∧
      ∀ p ∈ (Interface.ofRecords (contractNameOf raw contractName) fs es rs).parameters, ∀ t,
        Schema.LiesAt t (maxDepth + 1) (Schema.Member.read p).type (Schema.Member.read p).components →
          ¬capacity.Takes t := by
  have hplain : ∀ s : String, capacity.Takes s := fun s => Capacity.takes_of_plain (Text.plain_ofString s)
  have hdeep : ∀ t, capacity.Takes (Notice.typeTooDeep t).message ↔ capacity.Takes t := by
    intro t
    simp only [Notice.message, Capacity.takes_append, hplain, true_and, and_true]
  have hlies := @typeTooDeep_assemble _ _ _ _ hi hd
  obtain ⟨parts⟩ := exists_parts_of_built (assemble_eq_ok.1 hd).1
  have hcollisions := parts.collisionsOf_eq (contractNameOf raw contractName)
  rw [collisionsOf, ← notices_assemble _ (.bool false)] at hcollisions
  simp only [CommandLine.takes_noticeLine ht]
  constructor
  · intro hlost
    refine ⟨repeats_eq_nil.1 (List.eq_nil_iff_forall_not_mem.2 fun p hp => ?_), fun p hp t h htakes => ?_⟩
    · -- a name that is described twice is plain, so its warning is shown
      have hmem : p.collisionName ∈ (repeats (places fs es rs)).map Place.collisionName := List.mem_map_of_mem hp
      rw [← hcollisions] at hmem
      obtain ⟨n, hn, hname⟩ := List.mem_filterMap.1 hmem
      obtain rfl : n = .overwriting p.collisionName := by
        cases n with
        | overwriting name => rw [Option.some.inj hname]
        | _ => cases hname
      refine hlost _ hn (Capacity.takes_of_plain ?_)
      exact ((Text.plain_ofString _).append (plain_collisionName hi (repeatsAfter_subset [] _ hp))).append
        (Text.plain_ofString _)
    · exact hlost _ (hlies.2 ⟨p, hp, h⟩) ((hdeep t).2 htakes)
  · rintro ⟨hplaces, hnone⟩ n hn
    rw [repeats_eq_nil.2 hplaces, List.map_nil, List.filterMap_eq_nil_iff] at hcollisions
    rcases warning_of_assembled _ hn with ⟨t, rfl⟩ | ⟨name, rfl⟩
    · obtain ⟨p, hp, h⟩ := hlies.1 hn
      exact fun htakes => hnone p hp t h ((hdeep t).1 htakes)
    · cases hcollisions _ hn

end Warnings

namespace CommandLine

/-- Whether a run shows the text of the description of a document, behind a line for each warning. -/
structure PrintsDescription (raw : Value) (fs : List FunctionRecord) (es : List EventRecord) (rs : List ErrorRecord)
    (i : Interface) (d : Document) (text : Text) (before after : World) : Prop where
  records : i = .ofRecords (contractNameOf raw .null) fs es rs
  read : (readInterface raw .null).result = .ok i
  assembled : (assemble (.record i) (.bool false)).result = .ok d
  converted : (convert raw .null (.bool false)).result = .ok (.success d.toValue)
  written : (Json.toJson (.value d.toValue) (.int 4)).result = .ok text
  lines : after = (before.told ((assemble (.record i) (.bool false)).notices.map (noticeLine before.time))).printed
    (text ++ "\n")
  warnings : ∀ n ∈ (assemble (.record i) (.bool false)).notices,
    (∃ type, n = .typeTooDeep type) ∨ ∃ name, n = .overwriting name
  /-- The description is printed alone exactly if nothing is described twice and no type that lies too deep is taken by
  the standard output. -/
  alone : before.time.Plain → (after.output = before.output ++ text ++ "\n" ↔ (places fs es rs).Nodup ∧
    ∀ p ∈ i.parameters, ∀ t, Schema.LiesAt t (maxDepth + 1) (Schema.Member.read p).type
      (Schema.Member.read p).components → ¬before.capacity.Takes t)
  /-- The description is JSON, in which numbers that are not finite stand under their names. -/
  json : Json.IsJson true (text ++ "\n")
  proper : d.toValue.Finite → Json.IsJson false (text ++ "\n")

theorem isJson_line {wide : Bool} {v : Value} {text : Text} (ht : (Json.toJson (.value v) (.int 4)).result = .ok text)
    (h : wide = true ∨ v.Finite) : Json.IsJson wide (text ++ "\n") := by
  cases (toJson_indented v).symm.trans ht
  have hn : Json.IsBlank "\n" := List.forall_mem_singleton.2 (by decide)
  have hb : (Json.Layout.spaces 4).Blank := trivial
  exact .padded Json.isBlank_nil hn (Json.isJson_write hb v h)

/-- What is printed behind lines stands alone exactly if all of them are lost. -/
theorem output_told_printed (w : World) {lines : List Text} (hne : ∀ line ∈ lines, line ≠ []) (text : Text) :
    ((w.told lines).printed text).output = w.output ++ text ↔ ∀ line ∈ lines, ¬w.capacity.Takes line := by
  rw [← Capacity.shownOf_eq_nil hne]
  change w.output ++ w.capacity.shownOf lines ++ text = _ ↔ _
  rw [List.append_assoc, List.append_cancel_left_eq, List.append_left_eq_self]

/-- If a command that names nothing but a document ends without fault, it prints the description of the document, behind
the warnings. -/
theorem run_prints_description {file : Text} {arguments : Arguments} {environment : Environment} {w : World}
    (ha : Arguments.parse [file, "--nodotenv"] = .ok arguments) (he : Settings.NoVariables environment)
    (hr : (run (m := StateM World) [file, "--nodotenv"] environment w).1 = .ok 0) :
    (file ≠ Word.separatorText → arguments.input = file) ∧ ∃ raw fs es rs i d text,
      (readDocument (m := StateM World) arguments.input w).1 = .ok raw ∧
      PrintsDescription raw fs es rs i d text w (run (m := StateM World) [file, "--nodotenv"] environment w).2 := by
  obtain ⟨raw, v, text, hread, hv, ht, hw⟩ := run_eq ha he hr
  obtain ⟨i, d, hi, hd, rfl, _, hnotices⟩ := run_of_success hv
  obtain ⟨_, fs, es, rs, _, rfl, _⟩ := readInterface_records hi
  have hskipped : ∀ n ∈ (readInterface raw .null).notices, n.level.rank < Level.warning.rank := by
    intro n hn
    obtain ⟨type, rfl⟩ := notices_readInterface hn
    exact (by decide : Level.debug.rank < Level.warning.rank)
  have hwarnings : ∀ n ∈ (assemble (.record (.ofRecords (contractNameOf raw .null) fs es rs)) (.bool false)).notices,
      (∃ type, n = .typeTooDeep type) ∨ ∃ name, n = .overwriting name := fun n => warning_of_assembled _
  have hlevel : ∀ n ∈ (assemble (.record (.ofRecords (contractNameOf raw .null) fs es rs)) (.bool false)).notices,
      Level.warning.rank ≤ n.level.rank := by
    intro n hn
    rcases hwarnings n hn with ⟨type, rfl⟩ | ⟨name, rfl⟩ <;> exact le_refl _
  rw [hnotices, shown_append, shown_eq_nil hskipped, List.nil_append, shown_eq_map hlevel] at hw
  refine ⟨(parse_skipping ha).2, raw, fs, es, rs, .ofRecords (contractNameOf raw .null) fs es rs, d, text, hread, ?_⟩
  exact {
    records := rfl
    read := hi
    assembled := hd
    converted := hv
    written := ht
    lines := hw
    warnings := hwarnings
    alone := fun htime => by
      rw [hw, List.append_assoc, output_told_printed w (List.forall_mem_map.2 fun n _ => noticeLine_ne_nil _ n),
        List.forall_mem_map, all_lost_iff hi hd htime]
    json := isJson_line ht (.inl rfl)
    proper := fun hf => isJson_line ht (.inr hf) }

/-- Two functions of the same name and method, in a file. -/
def overloadsFile : Text :=
  "[\x7b\"type\": \"function\", \"name\": \"mint\"\x7d, \x7b\"type\": \"function\", \"name\": \"mint\"\x7d]"

/-- The world in which there is nothing but a file with overloads. -/
def overloadsWorld : World := { tree := .ofFiles [("Token.json", overloadsFile.flatMap Text.encodePoint)] }

theorem run_overloads : (run (m := StateM World) ["Token.json", "--nodotenv"] [] overloadsWorld).1 = .ok 0 :=
  toOption_eq_some.1 (by decide +kernel)

theorem parse_overloads : Arguments.parse ["Token.json", "--nodotenv"] =
    .ok ⟨"Token.json", { skipsEnvironmentFile := true }⟩ := rfl

theorem run_prints_description_overloads :
    (run (m := StateM World) ["Token.json", "--nodotenv"] [] overloadsWorld).1 = .ok 0 ∧
      ∃ raw fs es rs i d text,
        (readDocument (m := StateM World) "Token.json" overloadsWorld).1 = .ok raw ∧
        PrintsDescription raw fs es rs i d text overloadsWorld
          (run (m := StateM World) ["Token.json", "--nodotenv"] [] overloadsWorld).2 :=
  ⟨run_overloads, (run_prints_description parse_overloads Settings.noVariables_nil run_overloads).2⟩

/-- The description is not always printed alone: of overloads, there is a warning in front of it. -/
theorem not_description_alone : ¬∀ (file : Text) (w : World) (raw v : Value) (text : Text),
    (run (m := StateM World) [file, "--nodotenv"] [] w).1 = .ok 0 →
    (readDocument (m := StateM World) file w).1 = .ok raw →
    (convert raw .null (.bool false)).result = .ok (.success v) →
    (Json.toJson (.value v) (.int 4)).result = .ok text →
    (run (m := StateM World) [file, "--nodotenv"] [] w).2.output = w.output ++ text ++ "\n" := by
  intro h
  obtain ⟨raw, v, text, hread, hv, ht, _⟩ := run_eq parse_overloads Settings.noVariables_nil run_overloads
  have halone := h "Token.json" overloadsWorld raw v text run_overloads hread hv ht
  -- a notice begins with a bracket, and an object with a brace
  have hbracket : (run (m := StateM World) ["Token.json", "--nodotenv"] [] overloadsWorld).2.output.head? =
      some (.ofChar '[') := by decide +kernel
  have hbrace : ∃ t, text = .ofChar '\x7b' :: t := by
    obtain ⟨_, d, _, _, rfl⟩ := exists_described hv
    cases (toJson_indented _).symm.trans ht
    rw [Json.write, Document.toValue, Json.writeAt]
    exact Json.bracketed_eq _ _ _ _ _
  obtain ⟨t, rfl⟩ := hbrace
  rw [halone] at hbracket
  cases hbracket

end CommandLine

end ContractApi
