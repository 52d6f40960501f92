import ContractApi.Proofs.Parts
/-!
# What an assembler remembers of its builds

An assembler may build one document after another, while its interface and its strictness are changed in between. All
that it remembers of a build is what collided in it.

- What a build collides on depends on its interface alone, also if it stops at an entry that cannot be made
  (`collidedOn`, `collisions_build`).
- The result of a build is that of a fresh assembler which is not strict, unless the assembler is strict and anything has
  collided so far, in this build or in an earlier one (`result_build`).
- One action adds what its build collides on, and nothing if it is no build (`collisions_perform`). By induction, the
  collisions after any number of actions are those of all builds, one after another (`collisions_after`).
-/

namespace ContractApi.OpenApi

open ContractApi.Abi

/-! ## One build -/

/-- The places that are written to in a build, up to the first entry that cannot be made. -/
def placesEntered : Slot Interface → List Place
  | .record i => (entered (documentEntries i)).map DocumentEntry.place
  | .stray _ => []

/-- What a build of the interface collides on: the places that are written to again, up to the end of the build. -/
def collidedOn (parsed : Slot Interface) : List Text := (repeats (placesEntered parsed)).map Place.collisionName

theorem collisions_buildDocument (parsed : Slot Interface) :
    (buildDocument parsed).notices.filterMap collision? = collidedOn parsed := by
  cases parsed with
  | stray v => rfl
  | record i =>
    have hquiet : ∀ o ∈ documentEntries i, o.Quiet := fun o ho => (tame_documentEntries i o ho).quiet
    refine collisions_enterAll hquiet fun p => ?_
    simp [not_occupied_empty]

/-- Whether the interface consists of well-formed records. -/
def WellFormedInterface (parsed : Slot Interface) : Prop := ∃ contractName fs es rs,
  parsed = .record (.ofRecords contractName fs es rs) ∧ (∀ f ∈ fs, f.WellFormed) ∧ (∀ e ∈ es, e.WellFormed) ∧
    ∀ r ∈ rs, r.WellFormed

/-- A well-formed interface has a document, whatever collides in it. -/
theorem WellFormedInterface.built {parsed : Slot Interface} (h : WellFormedInterface parsed) :
    ∃ d, (buildDocument parsed).result = .ok d := by
  obtain ⟨contractName, fs, es, rs, rfl, hf, he, hr⟩ := h
  obtain ⟨parts⟩ := exists_parts hf he hr
  exact ⟨_, parts.buildDocument_eq contractName⟩

namespace Assembler

/-- An assembler that has built nothing yet and is not strict. -/
def fresh (parsed : Slot Interface) : Assembler where
  parsed := parsed
  strict := .bool false

theorem collisions_build (a : Assembler) : a.build.2 = { a with collisions := a.collisions ++ collidedOn a.parsed } := by
  rw [← collisions_buildDocument]
  rfl

/-- Whether the assembler is strict and something has collided so far. -/
def Refuses (a : Assembler) : Prop := a.strict.isTruthy = true ∧ a.collisions ≠ []

/-- A document that can be built is returned, unless the assembler refuses it for what has collided by then. -/
theorem result_build_of_built {a : Assembler} {d : Document} (h : (buildDocument a.parsed).result = .ok d) :
    (a.build.2.Refuses → a.build.1.result = .error (.collisions a.build.2.collisions)) ∧
      (¬a.build.2.Refuses → a.build.1.result = .ok d) := by
  have hr : a.build.1.result = (if a.strict.isTruthy && !a.build.2.collisions.isEmpty then
      Outcome.fail (.collisions a.build.2.collisions) else return d : Outcome Document).result := by
    simp only [build, Outcome.bind_of_ok h]
  have hcond : (a.strict.isTruthy && !a.build.2.collisions.isEmpty) = true ↔ a.build.2.Refuses := by
    rw [Refuses, Bool.and_eq_true, Bool.not_eq_true', List.isEmpty_eq_false_iff, collisions_build]
  rw [hr]
  constructor
  · intro hrefuses
    rw [if_pos (hcond.2 hrefuses)]
    rfl
  · intro hrefuses
    rw [if_neg fun hc => hrefuses (hcond.1 hc)]
    rfl

/-- What keeps a document from being built is not told apart by what has collided before. -/
theorem result_build_of_failed {a : Assembler} {failure : Failure}
    (h : (buildDocument a.parsed).result = .error failure) : a.build.1.result = .error failure := by
  simp only [build, Outcome.bind_of_error h]

theorem result_fresh (parsed : Slot Interface) : (fresh parsed).build.1.result = (buildDocument parsed).result := by
  cases h : (buildDocument parsed).result with
  | error failure => exact result_build_of_failed (a := fresh parsed) h
  | ok d =>
    refine (result_build_of_built (a := fresh parsed) h).2 ?_
    rintro ⟨hstrict, _⟩
    cases hstrict

/-- What a build returns is the document that a fresh assembler returns. -/
theorem result_build {a : Assembler} {d : Document} (h : a.build.1.result = .ok d) :
    (fresh a.parsed).build.1.result = .ok d := by
  rw [result_fresh]
  cases hb : (buildDocument a.parsed).result with
  | error failure =>
    rw [result_build_of_failed hb] at h
    cases h
  | ok d' =>
    obtain ⟨hrefused, hreturned⟩ := result_build_of_built hb
    by_cases hrefuses : a.build.2.Refuses
    · rw [hrefused hrefuses] at h
      cases h
    · rw [← h, hreturned hrefuses]

/-! ## Actions -/

/-- What can be done with an assembler. -/
inductive Action where
  | build
  | envelope
  | setParsed (parsed : Slot Interface)
  | setStrict (strict : Value)

/-- What an action answers. -/
inductive Answer where
  | document (document : Document)
  | nothing

/-- Does what the action says. -/
def Action.perform : Action → Assembler → Outcome Answer × Assembler
  | .build, a => (.document <$> a.build.1, a.build.2)
  | .envelope, a => (.document <$> emptyDocument a.parsed, a)
  | .setParsed parsed, a => (return .nothing, { a with parsed })
  | .setStrict strict, a => (return .nothing, { a with strict })

/-- The assembler after some actions. -/
def after (start : Assembler) (actions : List Action) : Assembler :=
  actions.foldl (fun a action => (action.perform a).2) start

/-- The interfaces that some actions build, in order, where the first one is given. -/
def built (parsed : Slot Interface) : List Action → List (Slot Interface)
  | [] => []
  | .build :: rest => parsed :: built parsed rest
  | .setParsed parsed :: rest => built parsed rest
  | _ :: rest => built parsed rest

/-- An action and the assembler that it meets. -/
structure Moment where
  before : Assembler
  action : Action

namespace Moment

variable (m : Moment)

def answer : Outcome Answer := (m.action.perform m.before).1

def after : Assembler := (m.action.perform m.before).2

/-- What is added to the collisions. -/
def added : List Text :=
  match m.action with
  | .build => collidedOn m.before.parsed
  | _ => []

end Moment

/-- The moments of a sequence of actions. -/
def moments : Assembler → List Action → List Moment
  | _, [] => []
  | a, action :: rest => ⟨a, action⟩ :: moments (action.perform a).2 rest

/-- Only a build adds to the collisions. -/
theorem collisions_perform (m : Moment) : m.after.collisions = m.before.collisions ++ m.added := by
  obtain ⟨a, action⟩ := m
  cases action with
  | build => exact congrArg collisions (collisions_build a)
  | envelope | setParsed _ | setStrict _ => exact (List.append_nil _).symm

/-- After any number of actions, the collisions are those of all builds, one after another. -/
theorem collisions_after (start : Assembler) (actions : List Action) :
    (after start actions).collisions = start.collisions ++ (built start.parsed actions).flatMap collidedOn := by
  induction actions generalizing start with
  | nil => exact (List.append_nil _).symm
  | cons action rest ih =>
    have hstep : (action.perform start).2.collisions = start.collisions ++ (Moment.mk start action).added :=
      collisions_perform ⟨start, action⟩
    calc (after start (action :: rest)).collisions
        = (action.perform start).2.collisions ++ (built (action.perform start).2.parsed rest).flatMap collidedOn :=
          ih (action.perform start).2
      _ = start.collisions ++ ((Moment.mk start action).added ++
            (built (action.perform start).2.parsed rest).flatMap collidedOn) := by rw [hstep, List.append_assoc]
      _ = start.collisions ++ (built start.parsed (action :: rest)).flatMap collidedOn := by cases action <;> rfl

/-! ## Builds in a sequence of actions -/

section Build

variable {m : Moment} (hm : m.action = .build)

include hm

theorem Moment.after_of_build : m.after = m.before.build.2 := by rw [Moment.after, hm]; rfl

theorem Moment.answer_of_build : m.answer = .document <$> m.before.build.1 := by rw [Moment.answer, hm]; rfl

/-- A build of a well-formed interface fails exactly if the assembler refuses what has collided by then, and names all
of it. -/
theorem Moment.fails_iff (hw : WellFormedInterface m.before.parsed) :
    ((∃ failure, m.answer.result = .error failure) ↔ m.after.Refuses) ∧
      ∀ failure, m.answer.result = .error failure → failure = .collisions m.after.collisions := by
  obtain ⟨d, hd⟩ := hw.built
  obtain ⟨hrefused, hreturned⟩ := result_build_of_built hd
  rw [Moment.answer_of_build hm, Moment.after_of_build hm]
  simp only [Outcome.map_eq_error]
  by_cases hrefuses : m.before.build.2.Refuses
  · rw [hrefused hrefuses]
    exact ⟨iff_of_true ⟨_, rfl⟩ hrefuses, fun failure h => (Except.error.inj h).symm⟩
  · rw [hreturned hrefuses]
    exact ⟨iff_of_false (fun ⟨_, h⟩ => nomatch h) hrefuses, fun failure h => nomatch h⟩

end Build

/-! ## All at once -/

/-- What becomes of an assembler on which actions are done one after another. -/
structure RemembersCollisions (start : Assembler) (actions : List Action) : Prop where
  /-- The collisions are extended by what a build collides on, and by nothing else. -/
  step : ∀ m ∈ moments start actions, m.after.collisions = m.before.collisions ++ m.added
  run : (after start actions).collisions = start.collisions ++ (built start.parsed actions).flatMap collidedOn
  /-- A build of a well-formed interface fails exactly if the assembler is strict and anything has collided so far. -/
  fails : ∀ m ∈ moments start actions, m.action = .build → WellFormedInterface m.before.parsed →
    ((∃ failure, m.answer.result = .error failure) ↔ m.before.strict.isTruthy = true ∧ m.after.collisions ≠ [])
  /-- It names all of that, and is a failure to assemble. -/
  names : ∀ m ∈ moments start actions, m.action = .build → WellFormedInterface m.before.parsed →
    ∀ failure, m.answer.result = .error failure →
      failure.stage = .assembling ∧
        failure.message = "Name collisions in strict mode: " ++ Text.joined ", " m.after.collisions
  /-- What a build returns does not depend on what was done before. -/
  returns : ∀ m ∈ moments start actions, m.action = .build → ∀ answer, m.answer.result = .ok answer →
    ∃ d, answer = .document d ∧ (fresh m.before.parsed).build.1.result = .ok d
  /-- Neither does what stops it, if that is not a collision. -/
  stops : ∀ m ∈ moments start actions, m.action = .build → ∀ failure,
    (fresh m.before.parsed).build.1.result = .error failure → m.answer.result = .error failure

/-- Whatever is done with an assembler, it remembers what collided and nothing else. -/
theorem remembersCollisions (start : Assembler) (actions : List Action) : RemembersCollisions start actions where
  step := fun m _ => collisions_perform m
  run := collisions_after start actions
  fails := by
    intro m _ hm hw
    have hstrict : m.after.strict = m.before.strict := by
      rw [Moment.after_of_build hm]
      rfl
    rw [(Moment.fails_iff hm hw).1, Refuses, hstrict]
  names := by
    intro m _ hm hw failure h
    rw [(Moment.fails_iff hm hw).2 failure h]
    exact ⟨rfl, rfl⟩
  returns := by
    intro m _ hm answer h
    rw [Moment.answer_of_build hm] at h
    obtain ⟨d, hd, rfl⟩ := Outcome.map_eq_ok.1 h
    exact ⟨d, rfl, result_build hd⟩
  stops := by
    intro m _ hm failure h
    rw [result_fresh] at h
    rw [Moment.answer_of_build hm]
    exact Outcome.map_eq_error.2 (result_build_of_failed h)

/-- An interface in which nothing collides is refused by a strict assembler for what collided in an earlier one. -/
example :
    let fs := [taking "mint" "POST" [], taking "mint" "POST" []]
    let start := fresh (.record (.ofRecords "Token" fs [] []))
    let strictly : List Action := [.setParsed (.record (.ofRecords "Token" [] [] [])), .setStrict (.bool true)]
    (after start strictly).build.1.value?.isSome = true ∧
      (after start (.build :: strictly)).build.1.value?.isSome = false := by
  decide

end Assembler

end ContractApi.OpenApi
