import ContractApi.CommandLine.Arguments
import ContractApi.Proofs.Outcome
import ContractApi.Proofs.Table
/-!
# Arguments that ask for nothing but a document

- The document is named by an argument that is no option (`mem_of_parse`): taking another word leaves open what the
  document is (`next_input`).
- What every option keeps holds of all options that are read (`options_of_parse`); so notices of errors are shown whatever
  is asked for (`logLevel_of_parse`).
- A document and `--nodotenv` leave all other settings at their defaults (`parse_skipping`), and if no environment
  variable has anything to say, these are the ones that `Settings.AreDefaults` lists (`areDefaults`).
-/

namespace ContractApi.CommandLine

/-! ## The word that names the document -/

namespace Reading

theorem apply_input {before : List Flag} {flag : Flag} {values : List Text} {r r' : Reading}
    (h : r.apply before flag values = .ok r') : r'.input = r.input := by
  obtain ⟨_, _, h⟩ := except_bind_eq_ok.1 h
  obtain ⟨_, _, h⟩ := except_bind_eq_ok.1 h
  cases h
  rfl

theorem settle_input {r r' : Reading} (h : r.settle = .ok r') : r'.input = r.input := by
  unfold settle at h
  split at h
  · cases h
    rfl
  · split at h
    · cases h
    · cases h
    · exact apply_input h

theorem nextOption_input {written : Written} {r r' : Reading} (h : r.nextOption written = .ok r') :
    r'.input = r.input := by
  unfold nextOption at h
  split at h
  · cases h
  · split at h
    · split at h
      · exact (apply_input h).trans rfl
      · cases h
        rfl
    · exact (apply_input h).trans rfl

theorem nextValue_input {text : Text} {r r' : Reading} (h : r.nextValue text = .ok r') :
    r'.input = r.input ∨ r'.input = some text := by
  unfold nextValue at h
  split at h
  · split at h
    · exact .inl (apply_input h)
    · cases h
      exact .inl rfl
  · split at h
    · cases h
      exact .inr rfl
    · cases h
      exact .inl rfl

/-- Only a value can name the document. -/
theorem next_input {r r' : Reading} {word : Word} (h : r.next word = .ok r') :
    r'.input = r.input ∨ ∃ text, word = .value text ∧ r'.input = some text := by
  cases word with
  | value text => exact (nextValue_input h).imp_right fun h => ⟨text, rfl, h⟩
  | option written =>
    obtain ⟨s, hs, h⟩ := except_bind_eq_ok.1 h
    exact .inl ((nextOption_input h).trans (settle_input hs))
  | unknown text =>
    obtain ⟨s, hs, h⟩ := except_bind_eq_ok.1 h
    have hi := settle_input hs
    cases h
    exact .inl hi
  | separator =>
    obtain ⟨s, hs, h⟩ := except_bind_eq_ok.1 h
    have hi := settle_input hs
    split at h
    · cases h
      exact .inl hi
    · cases h
      exact .inl hi

/-- Taking words, the document is named by one of the values among them, if it was not named before. -/
theorem foldlM_next_input : ∀ {words : List Word} {r r' : Reading}, words.foldlM next r = .ok r' →
    r'.input = r.input ∨ ∃ text, .value text ∈ words ∧ r'.input = some text
  | [], _, _, h => by
    cases h
    exact .inl rfl
  | word :: words, r, r', h => by
    rw [List.foldlM_cons] at h
    obtain ⟨s, hs, h⟩ := except_bind_eq_ok.1 h
    rcases foldlM_next_input h with hr | ⟨text, hmem, hr⟩
    · rw [hr]
      exact (next_input hs).imp_right fun ⟨text, hw, hs⟩ => ⟨text, hw ▸ List.mem_cons_self, hs⟩
    · exact .inr ⟨text, List.mem_cons_of_mem _ hmem, hr⟩

theorem finish_input {r : Reading} {a : Arguments} (h : r.finish = .ok a) : r.input = some a.input := by
  obtain ⟨s, hs, h⟩ := except_bind_eq_ok.1 h
  rw [← settle_input hs]
  split at h
  · cases h
  · rename_i input hi _
    cases h
    exact hi
  · cases h

end Reading

/-- The document is named by a value. -/
theorem mem_of_parse {arguments : List Text} {a : Arguments} (h : Arguments.parse arguments = .ok a) :
    ∃ words, Word.ofArguments arguments = .ok words ∧ .value a.input ∈ words ∧
      (words.foldlM Reading.next {} >>= Reading.finish) = .ok a := by
  unfold Arguments.parse at h
  split at h
  · cases h
  · rename_i words hw
    obtain ⟨r, hr, hf⟩ := except_bind_eq_ok.1 h
    rcases Reading.foldlM_next_input hr with hi | ⟨text, hmem, hi⟩
    · cases hi.symm.trans (Reading.finish_input hf)
    · cases hi.symm.trans (Reading.finish_input hf)
      exact ⟨words, hw, hmem, h⟩

/-- A value stands for itself. -/
theorem ofUnspelled_eq_value {argument text : Text} {isLong : Bool}
    (h : Word.ofUnspelled argument isLong = .ok (.value text)) : text = argument := by
  unfold Word.ofUnspelled at h
  split at h
  · cases h
  · split at h
    · cases h
      rfl
    · cases h
  · cases h

theorem ofArgument_eq_value {argument text : Text} (h : Word.ofArgument argument = .ok (.value text)) :
    text = argument := by
  unfold Word.ofArgument at h
  split at h
  · split at h
    · split at h
      · cases h
      · exact ofUnspelled_eq_value h
    · cases h
      rfl
  · cases h
    rfl

/-! ## What every option keeps -/

section Options

variable {P : Options → Prop}
  (hP : ∀ {flag : Flag} {values : List Text} {o o' : Options}, flag.apply values o = .ok o' → P o → P o')

include hP

namespace Reading

theorem foldlM_apply_options {flags : List Flag} {o o' : Options}
    (h : flags.foldlM (fun options flag => flag.apply [] options) o = .ok o') (ho : P o) : P o' := by
  induction flags generalizing o with
  | nil =>
    cases h
    exact ho
  | cons flag flags ih =>
    rw [List.foldlM_cons] at h
    obtain ⟨o₁, h₁, h⟩ := except_bind_eq_ok.1 h
    exact ih h (hP h₁ ho)

theorem apply_options {before : List Flag} {flag : Flag} {values : List Text} {r r' : Reading}
    (h : r.apply before flag values = .ok r') (hr : P r.options) : P r'.options := by
  obtain ⟨o, ho, h⟩ := except_bind_eq_ok.1 h
  obtain ⟨o', ho', h⟩ := except_bind_eq_ok.1 h
  cases h
  exact hP ho' (foldlM_apply_options hP ho hr)

theorem settle_options {r r' : Reading} (h : r.settle = .ok r') (hr : P r.options) : P r'.options := by
  unfold settle at h
  split at h
  · cases h
    exact hr
  · split at h
    · cases h
    · cases h
    · exact apply_options hP h hr

theorem nextValue_options {text : Text} {r r' : Reading} (h : r.nextValue text = .ok r') (hr : P r.options) :
    P r'.options := by
  unfold nextValue at h
  split at h
  · split at h
    · exact apply_options hP h hr
    · cases h
      exact hr
  · split at h <;> cases h <;> exact hr

theorem nextOption_options {written : Written} {r r' : Reading} (h : r.nextOption written = .ok r')
    (hr : P r.options) : P r'.options := by
  unfold nextOption at h
  split at h
  · cases h
  · split at h
    · split at h
      · exact apply_options hP h hr
      · cases h
        exact hr
    · exact apply_options hP h hr

theorem next_options {r r' : Reading} {word : Word} (h : r.next word = .ok r') (hr : P r.options) : P r'.options := by
  cases word with
  | value text => exact nextValue_options hP h hr
  | option written =>
    obtain ⟨s, hs, h⟩ := except_bind_eq_ok.1 h
    exact nextOption_options hP h (settle_options hP hs hr)
  | unknown text =>
    obtain ⟨s, hs, h⟩ := except_bind_eq_ok.1 h
    have hk := settle_options hP hs hr
    cases h
    exact hk
  | separator =>
    obtain ⟨s, hs, h⟩ := except_bind_eq_ok.1 h
    have hk := settle_options hP hs hr
    split at h <;> cases h <;> exact hk

theorem foldlM_next_options {words : List Word} {r r' : Reading} (h : words.foldlM next r = .ok r')
    (hr : P r.options) : P r'.options := by
  induction words generalizing r with
  | nil =>
    cases h
    exact hr
  | cons word words ih =>
    rw [List.foldlM_cons] at h
    obtain ⟨s, hs, h⟩ := except_bind_eq_ok.1 h
    exact ih h (next_options hP hs hr)

theorem finish_options {r : Reading} {a : Arguments} (h : r.finish = .ok a) (hr : P r.options) : P a.options := by
  obtain ⟨s, hs, h⟩ := except_bind_eq_ok.1 h
  have hk := settle_options hP hs hr
  split at h
  · cases h
  · cases h
    exact hk
  · cases h

end Reading

/-- What holds when nothing is asked for, and is kept by every option, holds of all options that are read. -/
theorem options_of_parse (h₀ : P {}) {arguments : List Text} {a : Arguments} (h : Arguments.parse arguments = .ok a) :
    P a.options := by
  obtain ⟨words, _, _, h⟩ := mem_of_parse h
  obtain ⟨r, hr, hf⟩ := except_bind_eq_ok.1 h
  exact Reading.finish_options hP hf (Reading.foldlM_next_options hP hr h₀)

end Options

/-- An option can only ask for more notices than there are by default. -/
theorem apply_logLevel {flag : Flag} {values : List Text} {o o' : Options} (h : flag.apply values o = .ok o')
    (ho : ∀ n ∈ o.logLevel, n ≤ Level.warning.rank) : ∀ n ∈ o'.logLevel, n ≤ Level.warning.rank := by
  cases flag with
  | help | version => cases h
  | verbose | veryVerbose =>
    cases h
    intro n hn
    cases hn
    decide
  | indent =>
    obtain ⟨indent, _, h⟩ := except_bind_eq_ok.1 h
    cases h
    exact ho
  | name | strict | toFiles | skipEnvironmentFile | output | outputFolder =>
    cases h
    exact ho

/-- Whatever is asked for, warnings and errors are shown. -/
theorem logLevel_of_parse {arguments : List Text} {a : Arguments} (h : Arguments.parse arguments = .ok a)
    (environment : Environment) : Settings.logLevel ⟨a.options, environment⟩ ≤ Level.warning.rank := by
  have hlevel := options_of_parse (fun h => apply_logLevel h) (fun _ h => by cases h) h
  unfold Settings.logLevel
  split
  · rename_i n hn
    split
    · exact Int.le_refl _
    · exact hlevel n hn
  · exact Int.le_refl _

/-! ## Defaults -/

/-- With nothing but `--nodotenv` beside the document, only reading the environment file is turned off. If the document is
named `--`, this is taken for the separator, and the other argument for the document. -/
theorem parse_skipping {file : Text} {a : Arguments} (h : Arguments.parse [file, "--nodotenv"] = .ok a) :
    (∃ skips, a.options = { skipsEnvironmentFile := skips }) ∧ (file ≠ Word.separatorText → a.input = file) := by
  by_cases hfile : file = Word.separatorText
  · subst hfile
    cases h
    exact ⟨⟨false, rfl⟩, fun h => absurd rfl h⟩
  · obtain ⟨words, hw, hmem, h⟩ := mem_of_parse h
    rw [Word.ofArguments, if_neg hfile] at hw
    obtain ⟨word, hword, hw⟩ := except_bind_eq_ok.1 hw
    cases hw
    -- the other word is an option, so it is this one that names the document
    rcases List.mem_cons.1 hmem with rfl | hmem
    · rw [ofArgument_eq_value hword] at h ⊢
      cases h
      exact ⟨⟨true, rfl⟩, fun _ => rfl⟩
    · cases List.mem_singleton.1 hmem

end ContractApi.CommandLine

namespace ContractApi.Settings

/-- What the names of the environment variables for settings begin with. -/
def variableStart : Text := "ABI2OPENAPI_"

/-- Whether no environment variable is for settings. -/
def NoVariables (environment : Environment) : Prop := ∀ e ∈ environment, ¬variableStart <+: e.1

theorem noVariables_nil : NoVariables [] := fun _ h => absurd h List.not_mem_nil

theorem NoVariables.get? {environment : Environment} (h : NoVariables environment) {name : Text}
    (hn : variableStart <+: name) : Table.get? name environment = none := by
  rw [Option.eq_none_iff_forall_ne_some]
  exact fun value hv => h _ (Table.mem_of_get? hv) hn

/-- Whether the settings are the defaults, apart from the folder for output. -/
structure AreDefaults (s : Settings) : Prop where
  logLevel : s.logLevel = Level.warning.rank
  contractName : s.contractName = .null
  strict : s.strict = false
  indent : s.indent = .ok (.int 4)
  toFiles : s.toFiles = false
  selectsSeveral : s.selectsSeveral = false
  selected : Product.all.filter s.selects = [.description]
  /-- Nothing is told but that the environment file is read. -/
  notices : ∀ n ∈ s.notices, n = .loadingEnvironment
  describe : ∃ description, s.describe = .ok description

theorem areDefaults {skips : Bool} {environment : Environment} (h : NoVariables environment) :
    AreDefaults ⟨{ skipsEnvironmentFile := skips }, environment⟩ := by
  have hname : Table.get? nameVariable environment = none := h.get? (by decide)
  have hstrict : Table.get? strictVariable environment = none := h.get? (by decide)
  have hindent : Table.get? indentVariable environment = none := h.get? (by decide)
  have hi : Settings.indent ⟨{ skipsEnvironmentFile := skips }, environment⟩ = .ok (.int 4) := by
    simp [Settings.indent, nonempty?, hindent]
  exact {
    logLevel := rfl
    contractName := by simp [Settings.contractName, Value.orElse, Value.isTruthy, hname]
    strict := by simp [Settings.strict, hstrict]
    indent := hi
    toFiles := rfl
    selectsSeveral := rfl
    selected := rfl
    notices := by cases skips <;> simp [Settings.notices, unknownOutputs, outputs, Product.all]
    describe := ⟨_, by rw [Settings.describe, hi]; rfl⟩ }

end ContractApi.Settings
