import Rubric.Proofs.Checker.Run
import Rubric.Proofs.Unification.Cycles

/-!
# Equations accepted by a session

An equation is accepted when its two sides, as resolved so far, have a unifier and the
numeric literals keep numeric types, in whatever order they are looked at. The substitution
of a session is the composition of the unifiers of its equations. Without variables in alias
bodies it stays in solved form, hence acyclic, and a solution of the later substitution solves
the earlier one together with the new equation.

Variables in alias bodies break this, whatever the table is otherwise.
-/

namespace Rubric

namespace Session

variable {aliases : Aliases} {literals : Arrangement TypeVar} {session : Session}
  {expected found : Ty} {subst : Substitution}

theorem nonNumeric?_eq_none {numeric : List TypeVar} :
    nonNumeric? aliases (literals.arrange numeric) subst = none ↔
      ∀ v ∈ numeric, mayBeNumeric aliases (subst.apply (.var v)) = true := by
  simp [nonNumeric?, List.find?_eq_none]

theorem equate_eq_ok :
    session.equate aliases literals expected found = .ok subst ↔
      ∃ solution,
        unify aliases (session.subst.apply expected) (session.subst.apply found) = .ok solution ∧
        subst = session.subst.compose solution ∧
        ∀ v ∈ session.numeric, mayBeNumeric aliases (subst.apply (.var v)) = true := by
  unfold equate
  dsimp only
  cases hunify : unify aliases (session.subst.apply expected) (session.subst.apply found) with
  | error error => cases error <;> simp
  | ok solution =>
      dsimp only
      cases hnumeric : nonNumeric? aliases (literals.arrange session.numeric)
          (session.subst.compose solution) with
      | some t =>
          have hrefused : ¬ ∀ v ∈ session.numeric,
              mayBeNumeric aliases ((session.subst.compose solution).apply (.var v)) = true := by
            rw [← nonNumeric?_eq_none, hnumeric]
            simp
          constructor
          · intro h
            cases h
          · rintro ⟨_, hsolution, rfl, hall⟩
            cases hsolution
            exact (hrefused hall).elim
      | none =>
          constructor
          · intro h
            cases h
            exact ⟨solution, rfl, rfl, nonNumeric?_eq_none.mp hnumeric⟩
          · rintro ⟨_, hsolution, rfl, _⟩
            cases hsolution
            rfl

/-- Only what the two sides are resolved to matters. -/
theorem gives_constrain_congr {expected' found' : Ty} {after : Session}
    (hexpected : session.subst.apply expected = session.subst.apply expected')
    (hfound : session.subst.apply found = session.subst.apply found') :
    (Check.constrain aliases literals expected found).Gives session () after ↔
      (Check.constrain aliases literals expected' found').Gives session () after := by
  rw [Check.gives_constrain, Check.gives_constrain]
  unfold equate
  rw [hexpected, hfound]

/-- An accepted equation keeps the substitution in solved form. -/
theorem idempotent_of_equate (hfree : aliases.VarFree) (hsolved : session.subst.Idempotent)
    (h : session.equate aliases literals expected found = .ok subst) : subst.Idempotent := by
  obtain ⟨solution, hunify, rfl, _⟩ := equate_eq_ok.mp h
  have hunified := Unification.Unified.of_unify hunify
  exact hsolved.compose (hunified.idempotent hfree) (hunified.all_free hfree hsolved)

theorem solvedBy_before_equate (hfree : aliases.VarFree) (hsolved : session.subst.Idempotent)
    (h : session.equate aliases literals expected found = .ok subst) {equal : Ty → Ty → Prop}
    (hc : Ty.Congruence equal) {σ : TypeVar → Ty} (hσ : subst.SolvedBy equal σ) :
    session.subst.SolvedBy equal σ := by
  obtain ⟨solution, hunify, rfl, _⟩ := equate_eq_ok.mp h
  exact hσ.first hc ((Unification.Unified.of_unify hunify).all_free hfree hsolved)

/-- A solution of the equations with a new one solves the earlier ones and the new one. -/
theorem solvedBy_of_equate (hfree : aliases.VarFree) (hsolved : session.subst.Idempotent)
    (h : session.equate aliases literals expected found = .ok subst) {σ : TypeVar → Ty}
    (hσ : subst.SolvedBy aliases.Equal σ) :
    session.subst.SolvedBy aliases.Equal σ ∧
      aliases.Equal (expected.subst σ) (found.subst σ) := by
  have hc := Aliases.Equal.congruence aliases
  have hearlier := solvedBy_before_equate hfree hsolved h hc hσ
  obtain ⟨solution, hunify, rfl, _⟩ := equate_eq_ok.mp h
  have hunified := Unification.Unified.of_unify hunify
  have hother := hunified.all_free hfree hsolved
  have hexpected := hearlier.apply hc expected
  have hfound := hearlier.apply hc found
  have hequal := hunified.equal hfree (hσ.second hother)
  exact ⟨hearlier, (hexpected.symm.trans hequal).trans hfound⟩

/-- The session changes by accepted equations, and otherwise in any way that leaves the
equations alone. -/
inductive Accepts (aliases : Aliases) (before : Session) : Session → Prop where
  | refl : Accepts aliases before before
  | constrain {literals : Arrangement TypeVar} {expected found : Ty} {middle after : Session} :
      Accepts aliases before middle →
      (Check.constrain aliases literals expected found).Gives middle () after →
      Accepts aliases before after
  | other {middle after : Session} : Accepts aliases before middle →
      after.subst = middle.subst → Accepts aliases before after

theorem Accepts.idempotent {before after : Session} (hfree : aliases.VarFree)
    (h : Accepts aliases before after) (hsolved : before.subst.Idempotent) :
    after.subst.Idempotent := by
  induction h with
  | refl => exact hsolved
  | constrain _ hgives ih =>
      obtain ⟨subst, hequate, rfl⟩ := Check.gives_constrain.mp hgives
      exact idempotent_of_equate hfree ih hequate
  | other _ hsame ih => rwa [hsame]

/-- Exactly when no alias body has a variable is every unifier acyclic, and with it what a
session holds after any accepted equations of a clause. Such a substitution can be applied
to the end. -/
theorem substitutions_acyclic_iff (aliases : Aliases) :
    aliases.VarFree ↔
      (∀ a b s, unify aliases a b = .ok s → s.Acyclic ∧ ∀ t, s.Resolves t (s.apply t)) ∧
      (∀ before after : Session, Accepts aliases before.reset after →
        after.subst.Acyclic ∧ ∀ t, after.subst.Resolves t (after.subst.apply t)) := by
  constructor
  · intro hfree
    refine ⟨?_, ?_⟩
    · intro a b s h
      have hacyclic := ((Unification.Unified.of_unify h).idempotent hfree).acyclic
      exact ⟨hacyclic, hacyclic.resolves⟩
    · intro before after h
      have hacyclic := (h.idempotent hfree Substitution.idempotent_empty).acyclic
      exact ⟨hacyclic, hacyclic.resolves⟩
  · rintro ⟨hunifiers, _⟩ name body hbody v hv
    obtain ⟨a, b, s, hunify, hcyclic⟩ := Unification.exists_cyclic_of_occurs hbody hv
    exact hcyclic (hunifiers a b s hunify).1

/-- Two aliases for variables: the second equation binds the variable of `Z` to that of
`A`, which the first one has bound to an application of the variable of `Z`. Following the
bindings from there has no end. -/
theorem exists_cyclic_unifier :
    ∃ s, unify (Setting.lowerAliases [("A", .var "a"), ("Z", .var "z")] 0).1
        (.tuple [.con "A", .con "Z"])
        (.tuple [.app (.con "Z") [.con "Int"], .con "A"]) = .ok s ∧
      ¬ s.Acyclic ∧ ∃ t, ∀ u, ¬ s.Resolves t u := by
  let s : Substitution :=
    ⟨⟨[(⟨0, "a"⟩, .app (.var ⟨0, "a"⟩) [.con "Int"]), (⟨1, "z"⟩, .var ⟨0, "a"⟩)]⟩⟩
  have hcyclic : ¬ s.Acyclic := by
    intro hacyclic
    exact hacyclic ⟨0, "a"⟩ (.single ⟨_, rfl, rfl⟩)
  refine ⟨s, rfl, hcyclic, ?_⟩
  simpa [Substitution.acyclic_iff_resolves] using hcyclic

end Session

end Rubric
