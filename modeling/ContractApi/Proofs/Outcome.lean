import ContractApi.Outcome
import Mathlib.Data.List.Forall2
/-!
# Outcomes: success and what is told on the way

- Outcomes are a lawful monad. A sequence succeeds exactly if every step of it does (`bind_eq_ok`, `mapM_eq_ok`).
- `Succeeds` outcomes have a result, and `value?` is that result.
- `Tame` outcomes tell of nothing but types that lie too deep, and fail only for a value that is not what is needed.
- The same two facts about sequences for results without notices (`except_bind_eq_ok`, `except_mapM_eq_ok`).
-/

namespace ContractApi

variable {α β ε : Type}

/-! ## Results without notices -/

theorem toOption_eq_some {x : Except ε α} {a : α} : x.toOption = some a ↔ x = .ok a := by
  cases x <;> simp [Except.toOption]

theorem except_ok_bind (a : α) (f : α → Except ε β) : (Except.ok a >>= f) = f a := rfl

theorem except_bind_eq_ok {x : Except ε α} {f : α → Except ε β} {b : β} :
    (x >>= f) = .ok b ↔ ∃ a, x = .ok a ∧ f a = .ok b := by
  cases x with
  | error e => simp [bind, Except.bind]
  | ok a => simp [bind, Except.bind]

theorem except_map_eq_ok {x : Except ε α} {f : α → β} {b : β} :
    x.map f = .ok b ↔ ∃ a, x = .ok a ∧ f a = b := by
  cases x <;> simp [Except.map]

theorem except_mapM_eq_ok {f : α → Except ε β} : ∀ {l : List α} {r : List β},
    l.mapM f = .ok r ↔ List.Forall₂ (fun a b => f a = .ok b) l r
  | [], r => by cases r <;> simp [pure, Except.pure]
  | a :: l, r => by
    rw [List.mapM_cons, except_bind_eq_ok]
    constructor
    · rintro ⟨b, hb, h⟩
      obtain ⟨bs, hbs, h⟩ := except_bind_eq_ok.1 h
      cases h
      exact .cons hb (except_mapM_eq_ok.1 hbs)
    · rintro (_ | ⟨hb, hbs⟩)
      exact ⟨_, hb, except_bind_eq_ok.2 ⟨_, except_mapM_eq_ok.2 hbs, rfl⟩⟩

/-- Every element on the right belongs to one on the left. -/
theorem exists_of_forall₂ {R : α → β → Prop} {l : List α} {r : List β} (h : List.Forall₂ R l r) :
    ∀ b ∈ r, ∃ a ∈ l, R a b := by
  induction h with
  | nil => exact fun _ h => absurd h List.not_mem_nil
  | @cons a b l r hab _ ih =>
    refine List.forall_mem_cons.2 ⟨⟨a, List.mem_cons_self, hab⟩, fun b' hb' => ?_⟩
    obtain ⟨a', ha', h⟩ := ih b' hb'
    exact ⟨a', List.mem_cons_of_mem _ ha', h⟩

/-- What the elements of two lists have to do with those of a third, they have to do with each other. -/
theorem forall₂_of_left {γ : Type} {R : α → β → Prop} {S : α → γ → Prop} {T : β → γ → Prop}
    (h : ∀ a b c, R a b → S a c → T b c) {as : List α} {bs : List β} {cs : List γ} (hr : List.Forall₂ R as bs)
    (hs : List.Forall₂ S as cs) : List.Forall₂ T bs cs := by
  induction hr generalizing cs with
  | nil =>
    cases hs
    exact .nil
  | cons hab _ ih =>
    obtain _ | ⟨hac, hs⟩ := hs
    exact .cons (h _ _ _ hab hac) (ih hs)

theorem mapM_eq_some_of_forall₂ {f : α → Option β} {as : List α} {bs : List β}
    (h : List.Forall₂ (fun a b => f a = some b) as bs) : as.mapM f = some bs := by
  induction h with
  | nil => rfl
  | cons hab _ ih =>
    rw [List.mapM_cons, hab, ih]
    rfl

/-- Every element of the result was made of some element. -/
theorem exists_of_mem_mapM {f : α → Except ε β} {l : List α} {r : List β} (h : l.mapM f = .ok r) :
    ∀ b ∈ r, ∃ a ∈ l, f a = .ok b :=
  exists_of_forall₂ (except_mapM_eq_ok.1 h)

/-- Whether there is a result. -/
def Returns (x : Except ε α) : Prop := ∃ a, x = .ok a

theorem returns_ok (a : α) : Returns (.ok a : Except ε α) := ⟨a, rfl⟩

theorem not_returns_error (e : ε) : ¬Returns (.error e : Except ε α) := by
  rintro ⟨a, h⟩
  cases h

theorem returns_bind {x : Except ε α} {f : α → Except ε β} : Returns (x >>= f) ↔ ∃ a, x = .ok a ∧ Returns (f a) := by
  cases x with
  | error e => simp [Returns, bind, Except.bind]
  | ok a => simp [Returns, bind, Except.bind]

/-- If it does not depend on the first step whether the second returns, both have to. -/
theorem returns_bind_and {x : Except ε α} {f : α → Except ε β} {p : Prop} (h : ∀ a, Returns (f a) ↔ p) :
    Returns (x >>= f) ↔ Returns x ∧ p := by
  rw [returns_bind]
  constructor
  · rintro ⟨a, hx, hf⟩
    exact ⟨⟨a, hx⟩, (h a).1 hf⟩
  · rintro ⟨⟨a, hx⟩, hp⟩
    exact ⟨a, hx, (h a).2 hp⟩

theorem returns_bind_pure {x : Except ε α} {f : α → β} : Returns (x >>= fun a => pure (f a)) ↔ Returns x := by
  cases x <;> simp [Returns, bind, Except.bind, pure, Except.pure]

theorem returns_map {x : Except ε α} {f : α → β} : Returns (x.map f) ↔ Returns x := by
  cases x <;> simp [Returns, Except.map]

theorem returns_mapError {ε' : Type} {x : Except ε α} {f : ε → ε'} : Returns (x.mapError f) ↔ Returns x := by
  cases x <;> simp [Returns, Except.mapError]

theorem returns_mapM {f : α → Except ε β} : ∀ {l : List α}, Returns (l.mapM f) ↔ ∀ a ∈ l, Returns (f a)
  | [] => by simp [Returns, pure, Except.pure]
  | a :: l => by
    have ih := @returns_mapM f l
    rw [List.mapM_cons, returns_bind_and fun b => returns_bind_pure, ih, List.forall_mem_cons]

namespace Outcome

/-! ## The monad laws -/

@[ext] theorem ext {x y : Outcome α} (hn : x.notices = y.notices) (hr : x.result = y.result) : x = y := by
  cases x
  cases y
  cases hn
  cases hr
  rfl

theorem bind_of_ok {x : Outcome α} {f : α → Outcome β} {a : α} (h : x.result = .ok a) :
    x >>= f = ⟨x.notices ++ (f a).notices, (f a).result⟩ := by
  simp [bind, andThen, h]

/-- A value that is what is needed is passed on. -/
theorem ofFault_bind {x : Except Fault α} {f : α → Outcome β} {a : α} (h : x = .ok a) : ofFault x >>= f = f a := by
  rw [h, bind_of_ok rfl]
  rfl

theorem bind_of_error {x : Outcome α} {f : α → Outcome β} {e : Failure} (h : x.result = .error e) :
    x >>= f = ⟨x.notices, .error e⟩ := by
  simp [bind, andThen, h]

theorem id_map_outcome : ∀ x : Outcome α, id <$> x = x
  | ⟨_, .error _⟩ => rfl
  | ⟨_, .ok _⟩ => by simp [Functor.map, andThen]

theorem pure_bind_outcome (a : α) (f : α → Outcome β) : pure a >>= f = f a := by
  simp [pure, bind, andThen]

theorem bind_assoc_outcome {γ : Type} (x : Outcome α) (f : α → Outcome β) (g : β → Outcome γ) :
    x >>= f >>= g = x >>= fun a => f a >>= g := by
  cases hx : x.result with
  | error e => rw [bind_of_error hx, bind_of_error rfl, bind_of_error hx]
  | ok a =>
    rw [bind_of_ok hx, bind_of_ok hx]
    cases hf : (f a).result with
    | error e => rw [bind_of_error rfl, bind_of_error hf]
    | ok b =>
      rw [bind_of_ok rfl, bind_of_ok hf]
      simp only [List.append_assoc]

instance : LawfulMonad Outcome := .mk' Outcome id_map_outcome pure_bind_outcome bind_assoc_outcome

/-! ## Success -/

/-- Whether there is a result. -/
def Succeeds (x : Outcome α) : Prop := ∃ a, x.result = .ok a

/-- The result, if there is one. -/
def value? (x : Outcome α) : Option α := x.result.toOption

theorem value?_eq_some {x : Outcome α} {a : α} : x.value? = some a ↔ x.result = .ok a := toOption_eq_some

theorem value?_bind {x : Outcome α} {f : α → Outcome β} : (x >>= f).value? = x.value?.bind fun a => (f a).value? := by
  cases h : x.result with
  | error e => simp [value?, bind_of_error h, h, Except.toOption]
  | ok a => simp [value?, bind_of_ok h, h, Except.toOption]

theorem value?_map {x : Outcome α} {f : α → β} : (f <$> x).value? = x.value?.map f := by
  rw [map_eq_pure_bind, value?_bind]
  cases x.value? <;> rfl

@[simp] theorem pure_result (a : α) : (pure a : Outcome α).result = .ok a := rfl

@[simp] theorem pure_notices (a : α) : (pure a : Outcome α).notices = [] := rfl

/-- A sequence of two steps succeeds exactly if both do. -/
theorem bind_eq_ok {x : Outcome α} {f : α → Outcome β} {b : β} :
    (x >>= f).result = .ok b ↔ ∃ a, x.result = .ok a ∧ (f a).result = .ok b := by
  cases h : x.result with
  | error e => simp [bind_of_error h]
  | ok a => simp [bind_of_ok h]

theorem map_eq_ok {x : Outcome α} {f : α → β} {b : β} :
    (f <$> x).result = .ok b ↔ ∃ a, x.result = .ok a ∧ f a = b := by
  rw [map_eq_pure_bind, bind_eq_ok]
  simp

/-- A sequence of two steps fails with the first failure. -/
theorem bind_eq_error {x : Outcome α} {f : α → Outcome β} {e : Failure} :
    (x >>= f).result = .error e ↔ x.result = .error e ∨ ∃ a, x.result = .ok a ∧ (f a).result = .error e := by
  cases h : x.result with
  | error e => simp [bind_of_error h]
  | ok a => simp [bind_of_ok h]

theorem map_eq_error {x : Outcome α} {f : α → β} {e : Failure} : (f <$> x).result = .error e ↔ x.result = .error e := by
  rw [map_eq_pure_bind, bind_eq_error]
  simp

/-- What follows goes by the result only. -/
theorem bind_result_congr {x y : Outcome α} (h : x.result = y.result) (f : α → Outcome β) :
    (x >>= f).result = (y >>= f).result := by
  cases hy : y.result with
  | error e => rw [bind_of_error (h.trans hy), bind_of_error hy]
  | ok a => rw [bind_of_ok (h.trans hy), bind_of_ok hy]

theorem map_result_congr {x y : Outcome α} (h : x.result = y.result) (f : α → β) :
    (f <$> x).result = (f <$> y).result := by
  rw [map_eq_pure_bind, map_eq_pure_bind]
  exact bind_result_congr h _

theorem mapM_eq_ok {f : α → Outcome β} : ∀ {l : List α} {r : List β},
    (l.mapM f).result = .ok r ↔ List.Forall₂ (fun a b => (f a).result = .ok b) l r
  | [], r => by cases r <;> simp
  | a :: l, r => by
    rw [List.mapM_cons, bind_eq_ok]
    constructor
    · rintro ⟨b, hb, h⟩
      obtain ⟨bs, hbs, h⟩ := bind_eq_ok.1 h
      cases h
      exact .cons hb (mapM_eq_ok.1 hbs)
    · rintro (_ | ⟨hb, hbs⟩)
      exact ⟨_, hb, bind_eq_ok.2 ⟨_, mapM_eq_ok.2 hbs, rfl⟩⟩

theorem ofFault_eq_ok {x : Except Fault α} {a : α} : (ofFault x).result = .ok a ↔ x = .ok a := by
  cases x <;> simp [ofFault, Except.mapError]

/-! ## What is told on the way -/

/-- Whatever a sequence tells, one of its steps tells. -/
theorem mem_notices_bind {x : Outcome α} {f : α → Outcome β} {n : Notice} (h : n ∈ (x >>= f).notices) :
    n ∈ x.notices ∨ ∃ a, n ∈ (f a).notices := by
  cases hx : x.result with
  | error e =>
    rw [bind_of_error hx] at h
    exact .inl h
  | ok a =>
    rw [bind_of_ok hx] at h
    exact (List.mem_append.1 h).imp_right fun h => ⟨a, h⟩

theorem mem_notices_bind_of_ok {x : Outcome α} {f : α → Outcome β} {a : α} {n : Notice} (h : x.result = .ok a) :
    n ∈ (x >>= f).notices ↔ n ∈ x.notices ∨ n ∈ (f a).notices := by
  rw [bind_of_ok h]
  exact List.mem_append

theorem mem_notices_bind_pure {x : Outcome α} {g : α → β} {n : Notice} :
    n ∈ (x >>= fun a => pure (g a)).notices ↔ n ∈ x.notices := by
  cases h : x.result with
  | error e => rw [bind_of_error h]
  | ok a => rw [mem_notices_bind_of_ok h, pure_notices, or_iff_left List.not_mem_nil]

@[simp] theorem map_notices {x : Outcome α} {f : α → β} : (f <$> x).notices = x.notices := by
  rw [map_eq_pure_bind]
  cases h : x.result with
  | error e => rw [bind_of_error h]
  | ok a => rw [bind_of_ok h, pure_notices, List.append_nil]

/-- A sequence that succeeds tells what each of its steps tells. -/
theorem mem_notices_mapM {f : α → Outcome β} {n : Notice} : ∀ {l : List α} {r : List β}, (l.mapM f).result = .ok r →
    (n ∈ (l.mapM f).notices ↔ ∃ a ∈ l, n ∈ (f a).notices)
  | [], _, _ => iff_of_false List.not_mem_nil fun ⟨_, h, _⟩ => absurd h List.not_mem_nil
  | a :: l, r, h => by
    rw [List.mapM_cons] at h ⊢
    obtain ⟨b, hb, h⟩ := bind_eq_ok.1 h
    obtain ⟨bs, hbs, h⟩ := bind_eq_ok.1 h
    rw [mem_notices_bind_of_ok hb, mem_notices_bind_pure, mem_notices_mapM hbs]
    exact (List.exists_mem_cons_iff (fun a => n ∈ (f a).notices) a l).symm

theorem succeeds_pure (a : α) : (pure a : Outcome α).Succeeds := ⟨a, rfl⟩

theorem succeeds_ofFault {x : Except Fault α} : (ofFault x).Succeeds ↔ Returns x := by
  simp only [Succeeds, Returns, ofFault_eq_ok]

theorem succeeds_bind {x : Outcome α} {f : α → Outcome β} :
    (x >>= f).Succeeds ↔ ∃ a, x.result = .ok a ∧ (f a).Succeeds := by
  simp only [Succeeds, bind_eq_ok]
  constructor
  · rintro ⟨b, a, ha, hb⟩
    exact ⟨a, ha, b, hb⟩
  · rintro ⟨a, ha, b, hb⟩
    exact ⟨b, a, ha, hb⟩

/-- If it does not depend on the first step whether the second succeeds, both have to. -/
theorem succeeds_bind_and {x : Outcome α} {f : α → Outcome β} {p : Prop} (h : ∀ a, (f a).Succeeds ↔ p) :
    (x >>= f).Succeeds ↔ x.Succeeds ∧ p := by
  rw [succeeds_bind]
  constructor
  · rintro ⟨a, hx, hf⟩
    exact ⟨⟨a, hx⟩, (h a).1 hf⟩
  · rintro ⟨⟨a, hx⟩, hp⟩
    exact ⟨a, hx, (h a).2 hp⟩

theorem bind_pure_eq_ok {x : Outcome α} {g : α → β} {a : α} (h : x.result = .ok a) :
    (x >>= fun a => pure (g a)).result = .ok (g a) := bind_eq_ok.2 ⟨a, h, rfl⟩

theorem succeeds_bind_pure {x : Outcome α} {g : α → β} : (x >>= fun a => pure (g a)).Succeeds ↔ x.Succeeds := by
  constructor
  · rintro ⟨b, hb⟩
    obtain ⟨a, ha, _⟩ := bind_eq_ok.1 hb
    exact ⟨a, ha⟩
  · rintro ⟨a, ha⟩
    exact ⟨g a, bind_pure_eq_ok ha⟩

theorem succeeds_mapM {f : α → Outcome β} : ∀ {l : List α}, (l.mapM f).Succeeds ↔ ∀ a ∈ l, (f a).Succeeds
  | [] => iff_of_true (succeeds_pure []) fun _ h => absurd h List.not_mem_nil
  | a :: l => by
    have ih := @succeeds_mapM f l
    rw [List.mapM_cons, succeeds_bind_and fun b => succeeds_bind_pure, ih, List.forall_mem_cons]

/-! ## Notices and failures -/

/-- Whether nothing is told but of types that lie too deep. -/
def Quiet (x : Outcome α) : Prop := ∀ n ∈ x.notices, ∃ type, n = .typeTooDeep type

/-- Whether nothing fails but for a value that is not what is needed. -/
def OnlyFaults (x : Outcome α) : Prop := ∀ failure, x.result = .error failure → ∃ f, failure = .fault f

theorem Quiet.bind {x : Outcome α} {f : α → Outcome β} (hx : x.Quiet) (hf : ∀ a, (f a).Quiet) :
    (x >>= f).Quiet := by
  intro n hn
  rcases mem_notices_bind hn with hn | ⟨a, hn⟩
  · exact hx n hn
  · exact hf a n hn

theorem OnlyFaults.bind {x : Outcome α} {f : α → Outcome β} (hx : x.OnlyFaults) (hf : ∀ a, (f a).OnlyFaults) :
    (x >>= f).OnlyFaults := by
  intro failure hfailure
  cases h : x.result with
  | error e =>
    rw [bind_of_error h] at hfailure
    cases hfailure
    exact hx _ h
  | ok a =>
    rw [bind_of_ok h] at hfailure
    exact hf a failure hfailure

/-- Whether an outcome is both. -/
structure Tame (x : Outcome α) : Prop where
  quiet : x.Quiet
  onlyFaults : x.OnlyFaults

theorem tame_pure (a : α) : (pure a : Outcome α).Tame where
  quiet := fun n hn => absurd hn List.not_mem_nil
  onlyFaults := fun failure h => by cases h

theorem tame_fault (f : Fault) : (fail (.fault f) : Outcome α).Tame where
  quiet := fun n hn => absurd hn List.not_mem_nil
  onlyFaults := fun failure h => by
    cases h
    exact ⟨f, rfl⟩

theorem tame_ofFault : ∀ x : Except Fault α, (ofFault x).Tame
  | .ok a => tame_pure a
  | .error f => tame_fault f

theorem Tame.bind {x : Outcome α} {f : α → Outcome β} (hx : x.Tame) (hf : ∀ a, (f a).Tame) : (x >>= f).Tame where
  quiet := hx.quiet.bind fun a => (hf a).quiet
  onlyFaults := hx.onlyFaults.bind fun a => (hf a).onlyFaults

theorem tame_mapM {f : α → Outcome β} (hf : ∀ a, (f a).Tame) (l : List α) : (l.mapM f).Tame := by
  induction l with
  | nil => exact tame_pure []
  | cons a l ih =>
    rw [List.mapM_cons]
    exact (hf a).bind fun _ => ih.bind fun _ => tame_pure _

end Outcome

end ContractApi
