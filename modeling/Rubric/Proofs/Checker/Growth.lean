import Rubric.Proofs.Checker.Ensures

/-!
# Growth of a session

A successful step of the checker adds equations and numeric literals to a session, and it
takes none away. This holds for all aliases, also for those with variables, and without
any invariant of the session. What has grown can be read off the session at its end: a
literal stays numeric once it has been looked at and, without variables in alias bodies,
resolving a type early and again at the end is the same as resolving it at the end.
-/

namespace Rubric

namespace Session

/-- Equations are accepted one after the other, and between them anything may happen that
leaves the substitution alone and forgets no numeric literal. -/
inductive Grows (aliases : Aliases) (before : Session) : Session → Prop where
  | refl : Grows aliases before before
  | accept {middle : Session} {literals : Arrangement TypeVar} {expected found : Ty}
      {subst : Substitution} : Grows aliases before middle →
      middle.equate aliases literals expected found = .ok subst →
      Grows aliases before { middle with subst }
  | other {middle after : Session} : Grows aliases before middle →
      after.subst = middle.subst → middle.numeric ⊆ after.numeric → Grows aliases before after

namespace Grows

variable {aliases : Aliases} {before middle after : Session}

theorem trans (h : before.Grows aliases middle) (h' : middle.Grows aliases after) :
    before.Grows aliases after := by
  induction h' with
  | refl => exact h
  | accept _ hequate ih => exact .accept ih hequate
  | other _ hsubst hnumeric ih => exact .other ih hsubst hnumeric

theorem of_same (hsubst : after.subst = before.subst) (hnumeric : after.numeric = before.numeric) :
    before.Grows aliases after :=
  .other .refl hsubst (hnumeric ▸ List.Subset.refl _)

theorem accepts (h : before.Grows aliases after) : Accepts aliases before after := by
  induction h with
  | refl => exact .refl
  | accept _ hequate ih => exact .constrain ih (Check.gives_constrain.mpr ⟨_, hequate, rfl⟩)
  | other _ hsubst _ ih => exact .other ih hsubst

theorem numeric_subset (h : before.Grows aliases after) : before.numeric ⊆ after.numeric := by
  induction h with
  | refl => exact List.Subset.refl _
  | accept _ _ ih => exact ih
  | other _ _ hnumeric ih => exact List.Subset.trans ih hnumeric

/-- Every accepted equation looks at all literals, the older ones among them. -/
theorem mayBeNumeric (h : before.Grows aliases after)
    (hkinds : ∀ v ∈ before.numeric, mayBeNumeric aliases (before.subst.apply (.var v)) = true) :
    ∀ v ∈ before.numeric, Session.mayBeNumeric aliases (after.subst.apply (.var v)) = true := by
  induction h with
  | refl => exact hkinds
  | accept hgrows hequate _ =>
      obtain ⟨_, _, rfl, hlooked⟩ := equate_eq_ok.mp hequate
      exact fun v hv => hlooked v (hgrows.numeric_subset hv)
  | other _ hsubst _ ih => rwa [hsubst]

theorem solvedBy (hfree : aliases.VarFree) (h : before.Grows aliases after)
    (hsolved : before.subst.Idempotent) {equal : Ty → Ty → Prop} (hc : Ty.Congruence equal)
    {σ : TypeVar → Ty} (hσ : after.subst.SolvedBy equal σ) :
    before.subst.SolvedBy equal σ := by
  induction h with
  | refl => exact hσ
  | accept hgrows hequate ih =>
      have hmiddle := hgrows.accepts.idempotent hfree hsolved
      exact ih (solvedBy_before_equate hfree hmiddle hequate hc hσ)
  | other _ hsubst _ ih =>
      rw [hsubst] at hσ
      exact ih hσ

/-- Resolving a type before the end makes no difference at the end. -/
theorem apply_apply (hfree : aliases.VarFree) (h : before.Grows aliases after)
    (hsolved : before.subst.Idempotent) (t : Ty) :
    after.subst.apply (before.subst.apply t) = after.subst.apply t := by
  have hc : Ty.Congruence Eq := Aliases.normal_congruence .empty
  have hafter := h.accepts.idempotent hfree hsolved
  have hbefore := h.solvedBy hfree hsolved hc (hafter.solvedBy_image hc)
  rw [hafter.apply_eq, hafter.apply_eq]
  exact hbefore.apply hc t

end Grows

/-- The steps of a session make it grow. -/
theorem Reaches.grows {aliases : Aliases} {before after : Session}
    (h : before.Reaches aliases after) : before.Grows aliases after := by
  induction h with
  | refl => exact .refl
  | tail _ hstep ih =>
      cases hstep with
      | advance => exact .other ih rfl (List.Subset.refl _)
      | literal => exact .other ih rfl (List.subset_cons_self _ _)
      | accept _ _ hequate => exact .accept ih hequate
      | rescope => exact .other ih rfl (List.Subset.refl _)

/-- What was resolved alike stays so. -/
theorem Reaches.apply_congr {aliases : Aliases} {before after : Session}
    (hfree : aliases.VarFree) (h : before.Reaches aliases after)
    (hsolved : before.subst.Idempotent) {a b : Ty}
    (hab : before.subst.apply a = before.subst.apply b) :
    after.subst.apply a = after.subst.apply b := by
  rw [← h.grows.apply_apply hfree hsolved a, hab, h.grows.apply_apply hfree hsolved]

end Session

namespace Check

variable {α β : Type} {aliases : Aliases}

/-- A step makes sessions grow whenever it succeeds. -/
def Extends (aliases : Aliases) (step : Check α) : Prop :=
  ∀ before a after, step.Gives before a after → before.Grows aliases after

namespace Extends

theorem bind {step : Check α} {next : α → Check β} (hstep : step.Extends aliases)
    (hnext : ∀ a, (next a).Extends aliases) : (step >>= next).Extends aliases := by
  intro before b after h
  obtain ⟨a, middle, hfirst, hsecond⟩ := gives_bind.mp h
  exact (hstep before a middle hfirst).trans (hnext a middle b after hsecond)

theorem pure (a : α) : (Pure.pure a : Check α).Extends aliases := by
  intro before b after h
  obtain ⟨_, rfl⟩ := gives_pure.mp h
  exact .refl

end Extends

theorem extends_freshNumeric : freshNumeric.Extends aliases := by
  intro before t after h
  obtain ⟨_, rfl⟩ := gives_freshNumeric.mp h
  exact .other .refl rfl (List.subset_cons_self _ _)

theorem extends_lowering (names : Table String TypeVar) (term : StateM Naming α) :
    (lowering names term).Extends aliases := by
  intro before answer after h
  obtain ⟨_, rfl⟩ := gives_lowering.mp h
  exact .of_same rfl rfl

theorem extends_resolve (t : Ty) : (resolve t).Extends aliases := by
  intro before u after h
  obtain ⟨_, rfl⟩ := gives_resolve.mp h
  exact .refl

theorem extends_constrain {literals : Arrangement TypeVar} (expected found : Ty) :
    (constrain aliases literals expected found).Extends aliases := by
  intro before u after h
  obtain ⟨subst, hequate, rfl⟩ := gives_constrain.mp h
  exact .accept .refl hequate

theorem extends_bindName (name : String) (t : Ty) : (bindName name t).Extends aliases := by
  intro before u after h
  obtain rfl := gives_bindName.mp h
  exact .of_same rfl rfl

end Check

end Rubric
