import Rubric.Typing.Session

/-!
# Successful runs of checker steps

A step of the checker that succeeds takes a session to an answer and a further session.
A sequence of steps succeeds exactly when its parts do, one after the other, and each
primitive step has one law that says what it does to the session.
-/

namespace Rubric

theorem run_bind {σ α β : Type} (x : StateM σ α) (f : α → StateM σ β) (s : σ) :
    (x >>= f).run s = (f (x.run s).1).run (x.run s).2 :=
  rfl

theorem run_pure {σ α : Type} (a : α) (s : σ) : (pure a : StateM σ α).run s = (a, s) :=
  rfl

namespace Check

variable {α β : Type}

/-- The step succeeds on the first session with this answer and leaves the second. -/
def Gives (step : Check α) (before : Session) (answer : α) (after : Session) : Prop :=
  runOn step before = (.ok answer, after)

theorem Gives.unique {step : Check α} {before after after' : Session} {answer answer' : α}
    (h : step.Gives before answer after) (h' : step.Gives before answer' after') :
    answer = answer' ∧ after = after' := by
  have hsame := h.symm.trans h'
  simpa using hsame

theorem runOn_bind (step : Check α) (next : α → Check β) (session : Session) :
    runOn (step >>= next) session =
      match runOn step session with
      | (.ok answer, after) => runOn (next answer) after
      | (.error error, after) => (.error error, after) := by
  show (ExceptT.run (step >>= next)).run session = _
  rw [ExceptT.run_bind]
  simp only [runOn, StateT.run_bind]
  show (match (ExceptT.run step).run session with
    | (outcome, after) => _) = _
  rcases (ExceptT.run step).run session with ⟨outcome, after⟩
  cases outcome <;> rfl

theorem gives_bind {step : Check α} {next : α → Check β} {before after : Session} {b : β} :
    (step >>= next).Gives before b after ↔
      ∃ a middle, step.Gives before a middle ∧ (next a).Gives middle b after := by
  unfold Gives
  rw [runOn_bind]
  rcases runOn step before with ⟨outcome, middle⟩
  cases outcome with
  | error error => simp
  | ok a =>
      constructor
      · intro h
        exact ⟨a, middle, rfl, h⟩
      · rintro ⟨a', middle', heq, h⟩
        cases heq
        exact h

@[simp] theorem gives_pure {a b : α} {before after : Session} :
    (pure a : Check α).Gives before b after ↔ a = b ∧ before = after := by
  show ((Except.ok a, before) : Except TypeError α × Session) = (.ok b, after) ↔ _
  simp

@[simp] theorem gives_throw {error : TypeError} {a : α} {before after : Session} :
    (throw error : Check α).Gives before a after ↔ False := by
  show ((Except.error error, before) : Except TypeError α × Session) = (.ok a, after) ↔ _
  simp

@[simp] theorem gives_get {session before after : Session} :
    (get : Check Session).Gives before session after ↔ before = session ∧ before = after := by
  show ((Except.ok before, before) : Except TypeError Session × Session) = (.ok session, after) ↔ _
  simp

theorem gives_get_bind {next : Session → Check β} {before after : Session} {b : β} :
    (get >>= next : Check β).Gives before b after ↔ (next before).Gives before b after := by
  rw [gives_bind]
  constructor
  · rintro ⟨_, _, hget, h⟩
    obtain ⟨rfl, rfl⟩ := gives_get.mp hget
    exact h
  · intro h
    exact ⟨before, before, gives_get.mpr ⟨rfl, rfl⟩, h⟩

@[simp] theorem gives_set {session before after : Session} {u : Unit} :
    (set session : Check PUnit).Gives before u after ↔ session = after := by
  show ((Except.ok (), session) : Except TypeError Unit × Session) = (.ok u, after) ↔ _
  simp

@[simp] theorem gives_modify {f : Session → Session} {before after : Session} {u : Unit} :
    (modify f : Check PUnit).Gives before u after ↔ f before = after := by
  show ((Except.ok (), f before) : Except TypeError Unit × Session) = (.ok u, after) ↔ _
  simp

/-- What is listed after a step, if it succeeds. -/
def upon (step : Check α) (session : Session) (next : α → Session → List β) : List β :=
  match runOn step session with
  | (.ok answer, after) => next answer after
  | (.error _, _) => []

theorem Gives.upon_eq {step : Check α} {before after : Session} {answer : α}
    (h : step.Gives before answer after) (next : α → Session → List β) :
    step.upon before next = next answer after := by
  unfold upon
  rw [show runOn step before = (.ok answer, after) from h]

/-- The context of a step only shows when the step fails. -/
@[simp] theorem gives_inContext {context : String} {step : Check α} {before after : Session}
    {a : α} : (inContext context step).Gives before a after ↔ step.Gives before a after := by
  show (Except.mapError _ <$> step.run).run before = _ ↔ _
  unfold Gives runOn
  rw [StateT.run_map]
  show (match (ExceptT.run step).run before with | (outcome, after) => _) = _ ↔ _
  rcases (ExceptT.run step).run before with ⟨outcome, middle⟩
  cases outcome with
  | ok b => exact Iff.rfl
  | error error =>
      show ((Except.error _, middle) : Except TypeError α × Session) = _ ↔ _
      simp

/-! ## Primitive steps -/

@[simp] theorem gives_freshVar {before after : Session} {v : TypeVar} :
    freshVar.Gives before v after ↔
      v = ⟨before.next, none⟩ ∧ after = { before with next := before.next + 1 } := by
  unfold freshVar
  simp only [gives_bind, gives_get, gives_set, gives_pure]
  constructor
  · rintro ⟨_, _, ⟨rfl, rfl⟩, _, _, rfl, rfl, rfl⟩
    exact ⟨rfl, rfl⟩
  · rintro ⟨rfl, rfl⟩
    exact ⟨before, before, ⟨rfl, rfl⟩, (), _, rfl, rfl, rfl⟩

@[simp] theorem gives_fresh {before after : Session} {t : Ty} :
    fresh.Gives before t after ↔
      t = .var ⟨before.next, none⟩ ∧ after = { before with next := before.next + 1 } := by
  unfold fresh
  simp only [gives_bind, gives_freshVar, gives_pure]
  constructor
  · rintro ⟨_, _, ⟨rfl, rfl⟩, rfl, rfl⟩
    exact ⟨rfl, rfl⟩
  · rintro ⟨rfl, rfl⟩
    exact ⟨_, _, ⟨rfl, rfl⟩, rfl, rfl⟩

/-- New variables with consecutive numbers, as types. -/
def newTypes (start count : Nat) : List Ty :=
  (List.range' start count).map fun n => .var ⟨n, none⟩

@[simp] theorem length_newTypes (start count : Nat) : (newTypes start count).length = count := by
  simp [newTypes]

@[simp] theorem gives_freshFor {xs : List α} {before after : Session} {ts : List Ty} :
    (freshFor xs).Gives before ts after ↔
      ts = newTypes before.next xs.length ∧
        after = { before with next := before.next + xs.length } := by
  induction xs generalizing before after ts with
  | nil =>
      rw [freshFor, gives_pure]
      exact ⟨fun h => ⟨h.1.symm, h.2.symm⟩, fun h => ⟨h.1.symm, h.2.symm⟩⟩
  | cons x rest ih =>
      have hnext : before.next + 1 + rest.length = before.next + (x :: rest).length := by
        simp only [List.length_cons]
        omega
      simp only [freshFor, gives_bind, gives_fresh, ih, gives_pure]
      constructor
      · rintro ⟨_, _, ⟨rfl, rfl⟩, _, _, ⟨rfl, rfl⟩, rfl, rfl⟩
        exact ⟨rfl, congrArg (fun next => { before with next }) hnext⟩
      · rintro ⟨rfl, rfl⟩
        exact ⟨_, _, ⟨rfl, rfl⟩, _, _, ⟨rfl, rfl⟩, rfl,
          congrArg (fun next => { before with next }) hnext⟩

theorem length_of_freshFor {xs : List α} {before after : Session} {ts : List Ty}
    (h : (freshFor xs).Gives before ts after) : ts.length = xs.length := by
  rw [(gives_freshFor.mp h).1, length_newTypes]

@[simp] theorem gives_freshNumeric {before after : Session} {t : Ty} :
    freshNumeric.Gives before t after ↔
      t = .var ⟨before.next, none⟩ ∧
        after = { before with
          next := before.next + 1, numeric := ⟨before.next, none⟩ :: before.numeric } := by
  unfold freshNumeric
  simp only [gives_bind, gives_freshVar, gives_modify, gives_pure]
  constructor
  · rintro ⟨_, _, ⟨rfl, rfl⟩, _, _, rfl, rfl, rfl⟩
    exact ⟨rfl, rfl⟩
  · rintro ⟨rfl, rfl⟩
    exact ⟨_, _, ⟨rfl, rfl⟩, (), _, rfl, rfl, rfl⟩

@[simp] theorem gives_lowering {names : Table String TypeVar} {term : StateM Naming α}
    {before after : Session} {answer : α × Table String TypeVar} :
    (lowering names term).Gives before answer after ↔
      answer = ((term.run { names, next := before.next }).1,
        (term.run { names, next := before.next }).2.names) ∧
      after = { before with next := (term.run { names, next := before.next }).2.next } := by
  unfold lowering
  simp only [gives_bind, gives_get]
  constructor
  · rintro ⟨_, _, ⟨rfl, rfl⟩, h⟩
    revert h
    rcases term.run { names, next := before.next } with ⟨result, naming⟩
    simp only [gives_bind, gives_set, gives_pure]
    rintro ⟨_, _, rfl, rfl, rfl⟩
    exact ⟨rfl, rfl⟩
  · rintro ⟨rfl, rfl⟩
    refine ⟨before, before, ⟨rfl, rfl⟩, ?_⟩
    rcases term.run { names, next := before.next } with ⟨result, naming⟩
    exact gives_bind.mpr ⟨(), _, gives_set.mpr rfl, gives_pure.mpr ⟨rfl, rfl⟩⟩

@[simp] theorem gives_resolve {t u : Ty} {before after : Session} :
    (resolve t).Gives before u after ↔ u = before.subst.apply t ∧ after = before := by
  unfold resolve
  simp only [gives_bind, gives_get, gives_pure]
  constructor
  · rintro ⟨_, _, ⟨rfl, rfl⟩, rfl, rfl⟩
    exact ⟨rfl, rfl⟩
  · rintro ⟨rfl, rfl⟩
    exact ⟨_, _, ⟨rfl, rfl⟩, rfl, rfl⟩

/-- An equation that is accepted replaces the substitution and nothing else. -/
theorem gives_constrain {aliases : Aliases} {literals : Arrangement TypeVar}
    {expected found : Ty} {before after : Session} {u : Unit} :
    (constrain aliases literals expected found).Gives before u after ↔
      ∃ subst, before.equate aliases literals expected found = .ok subst ∧
        after = { before with subst } := by
  unfold constrain
  simp only [gives_bind, gives_get]
  constructor
  · rintro ⟨_, _, ⟨rfl, rfl⟩, h⟩
    split at h
    · next subst hsubst =>
        rw [gives_set] at h
        exact ⟨subst, hsubst, h.symm⟩
    · rw [gives_throw] at h
      exact h.elim
  · rintro ⟨subst, hsubst, rfl⟩
    refine ⟨before, before, ⟨rfl, rfl⟩, ?_⟩
    rw [hsubst, gives_set]

@[simp] theorem gives_bindName {name : String} {t : Ty} {before after : Session} {u : Unit} :
    (bindName name t).Gives before u after ↔
      after = { before with scopes := before.scopes.insert name t } := by
  unfold bindName
  rw [gives_modify]
  exact eq_comm

theorem gives_inNewScope {step : Check α} {before after : Session} {a : α} :
    (inNewScope step).Gives before a after ↔
      ∃ inside, step.Gives { before with scopes := before.scopes.push } a inside ∧
        after = { inside with scopes := before.scopes } := by
  show ((runOn step { before with scopes := before.scopes.push }).1,
    { (runOn step { before with scopes := before.scopes.push }).2 with
      scopes := before.scopes }) = (Except.ok a, after) ↔ _
  unfold Gives
  rcases runOn step { before with scopes := before.scopes.push } with ⟨outcome, inside⟩
  simp only [Prod.mk.injEq]
  constructor
  · rintro ⟨rfl, rfl⟩
    exact ⟨inside, ⟨rfl, rfl⟩, rfl⟩
  · rintro ⟨_, ⟨rfl, rfl⟩, rfl⟩
    exact ⟨rfl, rfl⟩

end Check

end Rubric
