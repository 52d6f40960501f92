import ContractApi.Proofs.StandardOutput
/-!
# What is reported of a failure

- A file that names no document is either `Unreadable`, which is reported, or `Unreported`, which stops the command: this
  is so for bytes that are no text, and for texts with too long a number or more levels than there is room for.
- Whatever the settings are, a command begins by naming unknown outputs and telling the settings, and what follows depends
  on the document alone (`runArguments_of_indent`).
- An option asks for an indentation by a number, so that a payload is ASCII and shown as it is (`blank_of_parse`).
- `run_reports` says what comes of every file that leads to no description.
-/

namespace ContractApi

namespace CommandLine

/-! ## Files without a document -/

/-- Whether a file holds a text. -/
def HoldsText (tree : Tree) (source text : Text) : Prop :=
  ∃ bytes t, tree.read source = .ok bytes ∧ Text.decode bytes = .ok t ∧ text = unifyLineBreaks t

/-- Whether a file holds the JSON text of a value, and there is room for its levels. -/
def Readable (levels : Nat) (tree : Tree) (source : Text) (raw : Value) : Prop :=
  ∃ text, HoldsText tree source text ∧ Json.readWithin levels text = .ok raw

/-- Whether a file cannot be read or holds no JSON, for a cause that is reported. -/
inductive Unreadable (levels : Nat) (tree : Tree) (source : Text) : Text → Prop where
  | refused {cause : FileFault.Cause} {path : Text} (h : tree.read source = .error (.refused cause path)) :
      Unreadable levels tree source (FileFault.refused cause path).message
  | malformed {text rest : Text} {problem : Json.Problem} (ht : HoldsText tree source text)
      (h : Json.readWithin levels text = .error (.problem problem rest)) :
      Unreadable levels tree source (Json.ReadFault.message text (.problem problem rest))

/-- Whether there is something wrong with a file that is not reported. -/
inductive Unreported (levels : Nat) (tree : Tree) (source : Text) : Stop → Prop where
  /-- The path is none. -/
  | pathless {fault : FileFault} (h : tree.read source = .error fault) (hf : ∀ cause path, fault ≠ .refused cause path) :
      Unreported levels tree source (.file fault)
  | undecodable {bytes : List UInt8} {fault : Text.DecodeFault} (h : tree.read source = .ok bytes)
      (hd : Text.decode bytes = .error fault) : Unreported levels tree source (.undecodable fault)
  | tooLong {text : Text} {digits : Nat} (ht : HoldsText tree source text)
      (h : Json.readWithin levels text = .error (.tooLong digits)) :
      Unreported levels tree source (.failure (.fault (.notInteger [] (.tooLong digits))))
  | tooDeep {text : Text} {kind : Kind} (ht : HoldsText tree source text)
      (h : Json.readWithin levels text = .error (.tooDeep kind)) :
      Unreported levels tree source (.failure (.fault (.documentTooDeep kind)))

/-- There is no other way for a file to be. -/
theorem readable_or (levels : Nat) (tree : Tree) (source : Text) :
    (∃ raw, Readable levels tree source raw) ∨ (∃ cause, Unreadable levels tree source cause) ∨
      ∃ stop, Unreported levels tree source stop := by
  cases hread : tree.read source with
  | error fault =>
    cases fault with
    | refused cause path => exact .inr (.inl ⟨_, .refused hread⟩)
    | endsEarly => exact .inr (.inr ⟨_, .pathless hread fun _ _ h => by cases h⟩)
    | unencodable text start stop => exact .inr (.inr ⟨_, .pathless hread fun _ _ h => by cases h⟩)
  | ok bytes =>
    cases hdecode : Text.decode bytes with
    | error fault => exact .inr (.inr ⟨_, .undecodable hread hdecode⟩)
    | ok text =>
      have ht : HoldsText tree source (unifyLineBreaks text) := ⟨bytes, text, hread, hdecode, rfl⟩
      cases hjson : Json.readWithin levels (unifyLineBreaks text) with
      | ok raw => exact .inl ⟨raw, _, ht, hjson⟩
      | error fault =>
        cases fault with
        | problem problem rest => exact .inr (.inl ⟨_, .malformed ht hjson⟩)
        | tooLong digits => exact .inr (.inr ⟨_, .tooLong ht hjson⟩)
        | tooDeep kind => exact .inr (.inr ⟨_, .tooDeep ht hjson⟩)

section Reading

variable {source : Text} (hs : source ≠ standardInput) {w : World}

include hs

theorem readDocument_of_error {fault : FileFault} (h : w.tree.read source = .error fault) :
    (readDocument (m := StateM World) source w).1 = .error (match fault with
      | .refused cause path => .unreadable (FileFault.refused cause path).message
      | fault => .stopped (.file fault)) := by
  have hread : (Surroundings.readFile source : StateM World (Except FileFault (List UInt8))) w = (.error fault, w) :=
    congrArg (·, w) h
  rw [readDocument_eq, readSource, if_neg hs, stateM_bind, hread]
  cases fault <;> rfl

theorem readDocument_of_bytes {bytes : List UInt8} (h : w.tree.read source = .ok bytes) :
    (readDocument (m := StateM World) source w).1 = (textOfFile bytes).bind (parseDocument w.capacity.levels) := by
  have hread : (Surroundings.readFile source : StateM World (Except FileFault (List UInt8))) w = (.ok bytes, w) :=
    congrArg (·, w) h
  rw [readDocument_eq, readSource, if_neg hs, stateM_bind, hread]
  rfl

theorem readDocument_of_text {text : Text} (h : HoldsText w.tree source text) :
    (readDocument (m := StateM World) source w).1 = parseDocument w.capacity.levels text := by
  obtain ⟨bytes, t, hread, hdecode, rfl⟩ := h
  rw [readDocument_of_bytes hs hread, textOfFile, hdecode]
  rfl

theorem readDocument_of_readable {raw : Value} (h : Readable w.capacity.levels w.tree source raw) :
    (readDocument (m := StateM World) source w).1 = .ok raw := by
  obtain ⟨text, ht, hr⟩ := h
  rw [readDocument_of_text hs ht, parseDocument, hr]

theorem readDocument_of_unreadable {cause : Text} (h : Unreadable w.capacity.levels w.tree source cause) :
    (readDocument (m := StateM World) source w).1 = .error (.unreadable cause) := by
  cases h with
  | refused h => exact readDocument_of_error hs h
  | malformed ht h => rw [readDocument_of_text hs ht, parseDocument, h]

theorem readDocument_of_unreported {stop : Stop} (h : Unreported w.capacity.levels w.tree source stop) :
    (readDocument (m := StateM World) source w).1 = .error (.stopped stop) := by
  cases h with
  | pathless h hf =>
    rename_i fault
    rw [readDocument_of_error hs h]
    cases fault with
    | refused cause path => exact absurd rfl (hf cause path)
    | endsEarly | unencodable => rfl
  | undecodable h hd =>
    rw [readDocument_of_bytes hs h, textOfFile, hd]
    rfl
  | tooLong ht h => rw [readDocument_of_text hs ht, parseDocument, h]
  | tooDeep ht h => rw [readDocument_of_text hs ht, parseDocument, h]

end Reading

/-! ## Settings that are told -/

/-- What is complained of for unknown outputs before the settings are known. -/
def earlyLines (capacity : Capacity) (s : Settings) : Text :=
  s.unknownOutputs.flatMap fun word => (earlyLine (.unknownOutput word)).flatMap capacity.escape

theorem earlyText_settings (capacity : Capacity) (s : Settings) :
    earlyText capacity s.notices = earlyLines capacity s := by
  have hloading : Level.warning.rank ≤ Notice.loadingEnvironment.level.rank ↔ False := by decide
  have hunknown : ∀ word, Level.warning.rank ≤ (Notice.unknownOutput word).level.rank ↔ True := by
    intro word
    exact iff_true_intro (le_refl _)
  rw [earlyText, Settings.notices, earlyLines]
  split <;> simp [hloading, hunknown, List.filter_map, List.flatMap_map, Function.comp_def]

/-- The world in which the document is read: unknown outputs have been named and the settings told. -/
def started (s : Settings) (description : Text) (w : World) : World :=
  (w.complained (earlyLines w.capacity s)).told (shown s.logLevel w.time [.usingSettings description])

section Settings

variable {a : Arguments} {environment : Environment}

/-- With valid settings, what happens depends on the document alone. -/
theorem runArguments_of_indent {indent : Value} (hi : Settings.indent ⟨a.options, environment⟩ = .ok indent) (w : World) :
    ∃ description, Settings.describe ⟨a.options, environment⟩ = .ok description ∧
      runArguments (m := StateM World) a environment w =
        (match (readDocument (m := StateM World) a.input (started ⟨a.options, environment⟩ description w)).1 with
          | .ok raw => convertDocument (m := StateM World) ⟨a.options, environment⟩ indent raw
          | .error (.unreadable cause) => do
            tell (Settings.logLevel ⟨a.options, environment⟩) (.inputUnreadable a.input cause)
            return .ok (exitCode .invalidAbi)
          | .error (.stopped stop) => return .error stop) (started ⟨a.options, environment⟩ description w) := by
  obtain ⟨description, hd⟩ : ∃ description, Settings.describe ⟨a.options, environment⟩ = .ok description := by
    rw [Settings.describe, hi]
    exact ⟨_, rfl⟩
  refine ⟨description, hd, ?_⟩
  rw [runArguments, stateM_bind, forM_tellEarly, earlyText_settings, hi, hd]
  dsimp only
  rw [stateM_bind, tell_eq]
  dsimp only
  rw [stateM_bind, readDocument_state]
  rfl

end Settings

/-! ## Indentations that are asked for -/

theorem kind_of_soleNumber {flag : Flag} {values : List Text} {v : Value} (h : soleNumber flag values = .ok v) :
    v.kind ≠ .text := by
  unfold soleNumber at h
  split at h
  · cases h
    exact fun h => by cases h
  · split at h <;> cases h
    exact fun h => by cases h

/-- No option asks for an indentation by a text. -/
theorem apply_indent {flag : Flag} {values : List Text} {o o' : Options} (h : flag.apply values o = .ok o')
    (ho : o.indent.kind ≠ .text) : o'.indent.kind ≠ .text := by
  cases flag with
  | help | version => cases h
  | indent =>
    obtain ⟨indent, hn, h⟩ := except_bind_eq_ok.1 h
    cases h
    exact kind_of_soleNumber hn
  | name | strict | verbose | veryVerbose | toFiles | skipEnvironmentFile | output | outputFolder =>
    cases h
    exact ho

/-- Whatever is asked for, the layout is one of blanks. -/
theorem blank_of_parse {arguments : List Text} {a : Arguments} (h : Arguments.parse arguments = .ok a)
    {environment : Environment} {indent : Value} (hi : Settings.indent ⟨a.options, environment⟩ = .ok indent)
    {layout : Json.Layout} (hl : Json.layoutOf indent = .ok layout) : layout.Blank := by
  have hkind := options_of_parse (P := fun o => o.indent.kind ≠ .text) (fun h => apply_indent h) (fun h => by cases h) h
  have hindent : indent.kind ≠ .text := by
    unfold Settings.indent at hi
    split at hi
    · split at hi
      · cases hi
        exact fun h => by cases h
      · obtain ⟨n, _, rfl⟩ := except_map_eq_ok.1 hi
        exact fun h => by cases h
    · cases hi
      exact hkind
  exact Json.blank_of_layoutOf hindent hl

/-! ## Conversions without a description -/

section Unsuccessful

variable {settings : Settings} {indent raw : Value} {result : ConversionResult} {w : World}

/-- A failure is told, and its payload is shown as JSON by the standard error output. -/
theorem reportFailure_eq {layout : Json.Layout} (hl : Json.layoutOf indent = .ok layout) (hb : layout.Blank) :
    reportFailure (m := StateM World) settings indent result w = (.ok (exitCode result.tag),
      (w.told (shown settings.logLevel w.time [.conversionFailed (result.message?.getD [])])).complained
        (Json.write layout result.payload ++ "\n")) := by
  have hplain : Text.Plain (Json.write layout result.payload ++ "\n") :=
    (Json.ascii_write hb result.payload).plain.append (Text.plain_ofString _)
  rw [reportFailure, stateM_bind, tell_eq, Json.result_toJson result.payload hl]
  dsimp only
  conv_rhs => rw [← @Capacity.escape_of_plain w.capacity _ hplain]
  rfl

/-- What leads to no description is reported behind the notices of the conversion. -/
theorem convertDocument_of_unsuccessful
    (hr : (convert raw settings.contractName (.bool settings.strict)).result = .ok result) (ht : result.tag ≠ .success) :
    convertDocument (m := StateM World) settings indent raw w =
      reportFailure (m := StateM World) settings indent result (w.told (shown settings.logLevel w.time
        (convert raw settings.contractName (.bool settings.strict)).notices)) := by
  rw [convert] at hr ⊢
  rw [convertDocument]
  dsimp only
  rw [stateM_bind, forM_tell_eq, hr]
  cases result with
  | success document => exact absurd rfl ht
  | invalid _ _ | failed _ _ => rfl

end Unsuccessful

/-- What is told in a run that leads to no description. -/
def toldFailing (settings : Settings) (description : Text) (raw : Value) (result : ConversionResult) : List Notice :=
  [.usingSettings description] ++ (convert raw settings.contractName (.bool settings.strict)).notices ++
    [.conversionFailed (result.message?.getD [])]

/-- What a command does whose arguments name a file that leads to no description. -/
structure ReportsFailure (settings : Settings) (description source : Text) (indent : Value) (w : World)
    (ran : Except Stop Nat × World) : Prop where
  /-- If the file is unreadable, the cause is logged. -/
  unreadable : ∀ cause, Unreadable w.capacity.levels w.tree source cause →
    ran = (.ok 1, (w.complained (earlyLines w.capacity settings)).told
      (shown settings.logLevel w.time [.usingSettings description] ++
        [noticeLine w.time (.inputUnreadable source cause)]))
  /-- If it holds a document, the payload of the result is shown by the standard error output, behind what is said there
  about unknown outputs and about notices that are lost. -/
  unsuccessful : ∀ raw layout result, Readable w.capacity.levels w.tree source raw →
    Json.layoutOf indent = .ok layout →
    (convert raw settings.contractName (.bool settings.strict)).result = .ok result → result.tag ≠ .success →
    (result.tag = .invalidAbi → ran.1 = .ok 1) ∧ (result.tag = .processingError → ran.1 = .ok 2) ∧
      ran.2 = ((w.complained (earlyLines w.capacity settings)).told
        (shown settings.logLevel w.time (toldFailing settings description raw result))).complained
          (Json.write layout result.payload ++ "\n") ∧
      (settings.unknownOutputs = [] → (∀ n ∈ toldFailing settings description raw result,
        settings.logLevel ≤ n.level.rank → w.capacity.Takes (noticeLine w.time n)) →
        ran.2.errors = w.errors ++ Json.write layout result.payload ++ "\n")
  /-- If anything else is wrong with it, the command is stopped. -/
  unreported : ∀ stop, Unreported w.capacity.levels w.tree source stop →
    ran = (.error stop, (w.complained (earlyLines w.capacity settings)).told
      (shown settings.logLevel w.time [.usingSettings description]))
  /-- A file that holds no document is one or the other. -/
  complete : (∃ raw, Readable w.capacity.levels w.tree source raw) ∨
    (∃ cause, Unreadable w.capacity.levels w.tree source cause) ∨ ∃ stop, Unreported w.capacity.levels w.tree source stop

/-- Where no output is unknown and no notice is lost, nothing but the last text is shown by the standard error output. -/
theorem errors_of_takes {settings : Settings} {notices : List Notice} {w : World} (hnone : settings.unknownOutputs = [])
    (htakes : ∀ n ∈ notices, settings.logLevel ≤ n.level.rank → w.capacity.Takes (noticeLine w.time n)) (text : Text) :
    (((w.complained (earlyLines w.capacity settings)).told (shown settings.logLevel w.time notices)).complained
      text).errors = w.errors ++ text := by
  have hlines : ∀ line ∈ shown settings.logLevel w.time notices, w.capacity.Takes line := by
    intro line hline
    obtain ⟨n, hn, rfl⟩ := List.mem_map.1 hline
    obtain ⟨hn, hlevel⟩ := List.mem_filter.1 hn
    exact htakes n hn (of_decide_eq_true hlevel)
  have hearly : earlyLines w.capacity settings = [] := by
    rw [earlyLines, hnone]
    rfl
  rw [hearly, World.complained_nil, World.told_of_takes hlines]
  rfl

/-- Every file that leads to no description is reported as far as its bytes are a text without too long a number or more
levels than there is room for, and no file is written. -/
theorem run_reports {arguments : List Text} {a : Arguments} (ha : Arguments.parse arguments = .ok a)
    (hs : a.input ≠ standardInput) {environment : Environment} {indent : Value}
    (hi : Settings.indent ⟨a.options, environment⟩ = .ok indent) (w : World) : ∃ description,
      Settings.describe ⟨a.options, environment⟩ = .ok description ∧
        ReportsFailure ⟨a.options, environment⟩ description a.input indent w
          (run (m := StateM World) arguments environment w) := by
  obtain ⟨description, hd, hrun⟩ := runArguments_of_indent hi w
  have hran : run (m := StateM World) arguments environment w = runArguments (m := StateM World) a environment w := by
    rw [run, ha]
  refine ⟨description, hd, ?_⟩
  rw [hran, hrun]
  refine {
    unreadable := fun cause h => ?_
    unsuccessful := fun raw layout result h hl hr ht => ?_
    unreported := fun stop h => ?_
    complete := readable_or w.capacity.levels w.tree a.input }
  · have hshown : shown (Settings.logLevel ⟨a.options, environment⟩) w.time [.inputUnreadable a.input cause] =
        [noticeLine w.time (.inputUnreadable a.input cause)] := by
      have herror : Level.warning.rank ≤ Level.error.rank := by decide
      exact shown_eq_map (List.forall_mem_singleton.2 ((logLevel_of_parse ha environment).trans herror))
    rw [readDocument_of_unreadable hs (show Unreadable _ (started _ description w).tree _ _ from h)]
    dsimp only
    rw [stateM_bind, tell_eq, started, World.told_told]
    change (_, (w.complained _).told (_ ++ shown _ w.time _)) = _
    rw [hshown]
    rfl
  · rw [readDocument_of_readable hs (show Readable _ (started _ description w).tree _ _ from h)]
    dsimp only
    rw [convertDocument_of_unsuccessful hr ht, reportFailure_eq hl (blank_of_parse ha hi hl)]
    have htold : ((started ⟨a.options, environment⟩ description w).told
        (shown (Settings.logLevel ⟨a.options, environment⟩) w.time
          (convert raw (Settings.contractName ⟨a.options, environment⟩)
            (.bool (Settings.strict ⟨a.options, environment⟩))).notices)).told
        (shown (Settings.logLevel ⟨a.options, environment⟩) w.time [.conversionFailed (result.message?.getD [])]) =
        (w.complained (earlyLines w.capacity ⟨a.options, environment⟩)).told
          (shown (Settings.logLevel ⟨a.options, environment⟩) w.time
            (toldFailing ⟨a.options, environment⟩ description raw result)) := by
      rw [started, told_shown, told_shown]
      rfl
    refine ⟨fun htag => by rw [htag]; rfl, fun htag => by rw [htag]; rfl, congrArg (World.complained · _) htold,
      fun hnone htakes => ?_⟩
    rw [List.append_assoc]
    exact (congrArg (fun w' : World => (w'.complained _).errors) htold).trans (errors_of_takes hnone htakes _)
  · rw [readDocument_of_unreported hs (show Unreported _ (started _ description w).tree _ _ from h)]
    rfl

/-- The world in which there is nothing but a file of one byte that begins no text. -/
def undecodableWorld : World := { tree := .ofFiles [("Token.json", [.ofNat 0xFF])] }

/-- In an empty folder the document is missing, which is reported. -/
theorem run_reports_missing :
    run (m := StateM World) ["Token.json", "--nodotenv"] [] { tree := .ofFiles [] } = (.ok 1,
      World.printed { tree := .ofFiles [] } (noticeLine "TIME" (.inputUnreadable "Token.json"
        (FileFault.refused .missing "Token.json").message))) := by
  have hindent : Settings.indent ⟨{ skipsEnvironmentFile := true }, []⟩ = .ok (.int 4) := rfl
  obtain ⟨description, _, hreports⟩ := run_reports parse_overloads (by decide) hindent { tree := .ofFiles [] }
  have htakes : ∀ line ∈ [noticeLine "TIME" (.inputUnreadable "Token.json"
      (FileFault.refused .missing "Token.json").message)], ({} : Capacity).Takes line :=
    List.forall_mem_singleton.2 fun c _ => Bool.and_false _
  have hsettings : ∀ n ∈ [Notice.usingSettings description], n.level.rank < Level.warning.rank :=
    List.forall_mem_singleton.2 (by decide : Level.info.rank < Level.warning.rank)
  refine (hreports.unreadable _ (.refused rfl)).trans ?_
  rw [show Settings.logLevel ⟨{ skipsEnvironmentFile := true }, []⟩ = Level.warning.rank from rfl,
    shown_eq_nil hsettings, List.nil_append, World.told_of_takes htakes]
  rfl

/-- Not everything that keeps a file from being read is reported: bytes that are no text stop the command. -/
theorem not_all_reported : ¬∀ (arguments : List Text) (a : Arguments) (environment : Environment) (indent : Value)
    (w : World), Arguments.parse arguments = .ok a → a.input ≠ standardInput →
    Settings.indent ⟨a.options, environment⟩ = .ok indent → Json.IsSpacing indent →
    (¬∃ raw, Readable w.capacity.levels w.tree a.input raw) →
      (run (m := StateM World) arguments environment w).1 = .ok 1 := by
  intro h
  have hread : undecodableWorld.tree.read "Token.json" = .ok [.ofNat 0xFF] := rfl
  have hdecode : Text.decode [.ofNat 0xFF] = .error ⟨.invalidStart, 0, [.ofNat 0xFF]⟩ := rfl
  have hnone : ¬∃ raw, Readable undecodableWorld.capacity.levels undecodableWorld.tree "Token.json" raw := by
    rintro ⟨raw, text, ⟨bytes, t, hbytes, ht, _⟩, _⟩
    cases hread.symm.trans hbytes
    cases hdecode.symm.trans ht
  have hone := h _ _ [] _ undecodableWorld parse_overloads (by decide) rfl (.inr ⟨4, rfl, by decide, by decide⟩) hnone
  have hstopped : (run (m := StateM World) ["Token.json", "--nodotenv"] [] undecodableWorld).1.toOption = none := by
    decide +kernel
  rw [hone] at hstopped
  cases hstopped

end CommandLine

end ContractApi
