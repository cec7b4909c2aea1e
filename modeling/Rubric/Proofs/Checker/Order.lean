import Rubric.Proofs.Checker.Achieves
import Rubric.Proofs.Checker.Growth
import Rubric.Proofs.Checker.History
import Rubric.Proofs.Unification.Variants

/-!
# The order of equations

Equations submitted in another order lead to other bindings on the way, and a literal may
be looked at earlier or later. The outcome is the same all the same: what the session holds
after one order solves all equations and gives literals types of numbers, so it is also a
solution for every other order, and the equations are accepted one by one. The two sessions
then solve each other.
-/

namespace Rubric

namespace Check

/-- Require the two sides of each equation to be equal, one equation after the other. -/
def constrainAll (aliases : Aliases) (literals : Arrangement TypeVar) :
    List (Ty × Ty) → Check Unit
  | [] => pure ()
  | (expected, found) :: rest => do
      constrain aliases literals expected found
      constrainAll aliases literals rest

theorem extends_constrainAll (aliases : Aliases) (literals : Arrangement TypeVar)
    (equations : List (Ty × Ty)) : (constrainAll aliases literals equations).Extends aliases := by
  induction equations with
  | nil => exact .pure ()
  | cons equation rest ih => exact (extends_constrain _ _).bind fun _ => ih

end Check

namespace Session

open Check

variable {aliases : Aliases} {literals : Arrangement TypeVar} {session after : Session}
  {equations : List (Ty × Ty)}

/-- The equations are remembered, the latest one first. -/
theorem History.constrainAll {earlier : List (Ty × Ty)} (h : History aliases earlier session)
    (hgives : (constrainAll aliases literals equations).Gives session () after) :
    History aliases (equations.reverse ++ earlier) after := by
  induction equations generalizing session earlier with
  | nil =>
      obtain ⟨_, rfl⟩ := gives_pure.mp hgives
      exact h
  | cons equation rest ih =>
      obtain ⟨_, middle, hfirst, hrest⟩ := gives_bind.mp hgives
      rw [List.reverse_cons, List.append_assoc]
      exact ih (.accepted h hfirst) hrest

/-- A type that a valuation gives the same full expansion as a type of numbers may be one
itself, as far as it is known. -/
theorem mayBeNumeric_of_value_eq (hfree : aliases.VarFree) (hacyclic : aliases.Acyclic)
    {θ : TypeVar → Ty} {t : Ty} {v : TypeVar} (hv : mayBeNumeric aliases (θ v) = true)
    (h : aliases.value θ t = aliases.value θ (.var v)) : mayBeNumeric aliases t = true := by
  have hexpanded : aliases.value θ t = aliases.normal (aliases.expand (θ v)) := by
    rw [h, Aliases.normal_expand hacyclic]
    rfl
  unfold mayBeNumeric at hv
  split at hv
  · next w hw =>
      rw [hw, Aliases.normal_var] at hexpanded
      have hvar : (t.subst θ).isVar = true := by
        rw [← Aliases.isVar_normal hfree]
        exact Ty.isVar_iff.mpr ⟨w, hexpanded⟩
      have ht : t.isVar = true := by
        by_contra hne
        rw [Ty.isVar_subst _ (Bool.eq_false_of_not_eq_true hne)] at hvar
        cases hvar
      obtain ⟨u, rfl⟩ := Ty.isVar_iff.mp ht
      unfold mayBeNumeric
      rw [Aliases.expand_of_unfoldHead rfl]
  · next kind hkind =>
      have hhead := Aliases.unfoldHead_expand hacyclic (θ v)
      rw [hkind] at hhead hexpanded
      rw [Aliases.normal_con_of_unfoldHead hhead] at hexpanded
      exact mayBeNumeric_of_value hfree hacyclic (of_decide_eq_true hv) hexpanded
  · cases hv

/-- A valuation that solves the equations and gives the literals types of numbers. -/
structure Satisfies (aliases : Aliases) (θ : TypeVar → Ty) (numeric : List TypeVar)
    (equations : List (Ty × Ty)) : Prop where
  equations : ∀ equation ∈ equations,
    aliases.value θ equation.1 = aliases.value θ equation.2
  numeric : ∀ v ∈ numeric, mayBeNumeric aliases (θ v) = true

/-- Equations that have a solution are accepted, and the solution stays one. -/
theorem exists_constrainAll (hfree : aliases.VarFree) (hacyclic : aliases.Acyclic)
    {θ : TypeVar → Ty} (hθ : Satisfies aliases θ session.numeric equations)
    (hsession : session.subst.SolvedBy (Unification.SameNormal aliases) θ)
    (literals : Arrangement TypeVar) :
    ∃ after, (constrainAll aliases literals equations).Gives session () after ∧
      after.subst.SolvedBy (Unification.SameNormal aliases) θ := by
  induction equations generalizing session with
  | nil => exact ⟨session, gives_pure.mpr ⟨rfl, rfl⟩, hsession⟩
  | cons equation rest ih =>
      obtain ⟨expected, found⟩ := equation
      obtain ⟨hequation, hrest⟩ := List.forall_mem_cons.mp hθ.equations
      have hresolved : aliases.value θ (session.subst.apply expected) =
          aliases.value θ (session.subst.apply found) := by
        rw [Unification.value_apply hsession, Unification.value_apply hsession, hequation]
      obtain ⟨solution, hunify, hsolution⟩ := Unification.exists_unify hfree hacyclic hresolved
      have hsubst := hsession.compose hsolution aliases.normal_congruence
      have hliterals : ∀ v ∈ session.numeric,
          mayBeNumeric aliases ((session.subst.compose solution).apply (.var v)) = true :=
        fun v hv => mayBeNumeric_of_value_eq hfree hacyclic (hθ.numeric v hv)
          (Unification.value_apply hsubst (.var v))
      have hequate : session.equate aliases literals expected found = .ok _ :=
        equate_eq_ok.mpr ⟨solution, hunify, rfl, hliterals⟩
      obtain ⟨after, hgives, hafter⟩ :=
        @ih { session with subst := session.subst.compose solution } ⟨hrest, hθ.numeric⟩ hsubst
      exact ⟨after, gives_bind.mpr ⟨(), _, gives_constrain.mpr ⟨_, hequate, rfl⟩, hgives⟩, hafter⟩

/-- What a session without equations holds after it has accepted some is a solution of
them. -/
theorem satisfies_of_constrainAll (hfree : aliases.VarFree) (hacyclic : aliases.Acyclic)
    {numeric : List TypeVar}
    (h : (constrainAll aliases literals equations).Gives { session.reset with numeric } () after) :
    after.subst.Idempotent ∧ Satisfies aliases after.subst.image numeric equations := by
  have hhistory : History aliases equations.reverse after := by
    have hstart : History aliases [] { session.reset with numeric } :=
      .other (.reset session) rfl
    simpa using hstart.constrainAll h
  have hsolved := hhistory.idempotent hfree
  refine ⟨hsolved, ?_, ?_⟩
  · intro equation hequation
    have hequal := hhistory.solved hfree
      (hsolved.solvedBy_image (Aliases.Equal.congruence aliases)) equation
      (List.mem_reverse.mpr hequation)
    exact hequal.normal_eq hacyclic
  · have hstart : ∀ v ∈ numeric,
        mayBeNumeric aliases (Substitution.empty.apply (.var v)) = true := by
      intro v _
      rw [Substitution.apply_empty, mayBeNumeric, Aliases.expand_of_unfoldHead rfl]
    have hliterals := (extends_constrainAll aliases literals equations _ _ _ h).mayBeNumeric hstart
    intro v hv
    have hkind := hliterals v hv
    rwa [hsolved.apply_eq] at hkind

/-- Equations that are accepted in one order are accepted in every order, and what the two
sessions hold in the end solve each other. -/
theorem exists_reordered (hfree : aliases.VarFree) (hacyclic : aliases.Acyclic)
    {numeric : List TypeVar} {equations' : List (Ty × Ty)} (hperm : equations.Perm equations')
    (h : (constrainAll aliases literals equations).Gives { session.reset with numeric } () after)
    (literals' : Arrangement TypeVar) :
    ∃ after',
      (constrainAll aliases literals' equations').Gives { session.reset with numeric } () after' ∧
      after'.subst.SolvedBy (Unification.SameNormal aliases) after.subst.image := by
  obtain ⟨_, hsatisfies⟩ := satisfies_of_constrainAll hfree hacyclic h
  refine exists_constrainAll hfree hacyclic ⟨?_, hsatisfies.numeric⟩ Substitution.solvedBy_empty
    literals'
  exact fun equation hequation => hsatisfies.equations equation (hperm.mem_iff.mpr hequation)

/-- Whether equations are accepted, all of them, by a session that holds none yet does not
depend on their order, nor on the orders in which literals are looked at. Neither does what
the session holds then, up to one renaming of variables and up to aliases. -/
theorem order_irrelevant (hfree : aliases.VarFree) (hacyclic : aliases.Acyclic)
    (literals literals' : Arrangement TypeVar) (session : Session) (numeric : List TypeVar)
    {equations equations' : List (Ty × Ty)} (hperm : equations.Perm equations') :
    ((∃ after,
        (constrainAll aliases literals equations).Gives { session.reset with numeric } () after) ↔
      ∃ after,
        (constrainAll aliases literals' equations').Gives { session.reset with numeric } () after) ∧
    ∀ after after',
      (constrainAll aliases literals equations).Gives { session.reset with numeric } () after →
      (constrainAll aliases literals' equations').Gives { session.reset with numeric } () after' →
        ∃ ρ : Equiv.Perm TypeVar, ∀ t, aliases.normal ((after.subst.apply t).rename ρ) =
          aliases.normal (after'.subst.apply t) := by
  refine ⟨⟨?_, ?_⟩, ?_⟩
  · rintro ⟨after, h⟩
    obtain ⟨after', h', _⟩ := exists_reordered hfree hacyclic hperm h literals'
    exact ⟨after', h'⟩
  · rintro ⟨after', h'⟩
    obtain ⟨after, h, _⟩ := exists_reordered hfree hacyclic hperm.symm h' literals
    exact ⟨after, h⟩
  · intro after after' h h'
    obtain ⟨_, hgives', hsolved⟩ := exists_reordered hfree hacyclic hperm h literals'
    obtain ⟨_, rfl⟩ := hgives'.unique h'
    obtain ⟨_, hgives, hsolves⟩ := exists_reordered hfree hacyclic hperm.symm h' literals
    obtain ⟨_, rfl⟩ := hgives.unique h
    have hvariants : Substitution.Variants aliases _ _ :=
      ⟨(satisfies_of_constrainAll hfree hacyclic h).1,
        (satisfies_of_constrainAll hfree hacyclic h').1, hsolves, hsolved⟩
    exact hvariants.exists_renaming hfree

/-- One variable is equated with two others and a literal becomes an amount. The free
variable is that of the equation which comes last. -/
theorem order_irrelevant_reversed :
    ∃ after after',
      (constrainAll Rotation.setting.aliases .listed [(.var ⟨0, none⟩, .var ⟨1, none⟩),
          (.var ⟨0, none⟩, .var ⟨2, none⟩), (.var ⟨3, none⟩, .con "Amount")]).Gives
        { Session.reset { next := 4 } with numeric := [⟨3, none⟩] } () after ∧
      (constrainAll Rotation.setting.aliases .listed [(.var ⟨3, none⟩, .con "Amount"),
          (.var ⟨0, none⟩, .var ⟨2, none⟩), (.var ⟨0, none⟩, .var ⟨1, none⟩)]).Gives
        { Session.reset { next := 4 } with numeric := [⟨3, none⟩] } () after' ∧
      after.subst.get? ⟨1, none⟩ = some (.var ⟨2, none⟩) ∧
      after'.subst.get? ⟨2, none⟩ = some (.var ⟨1, none⟩) ∧
      ∃ ρ : Equiv.Perm TypeVar, ∀ t,
        Rotation.setting.aliases.normal ((after.subst.apply t).rename ρ) =
          Rotation.setting.aliases.normal (after'.subst.apply t) := by
  obtain ⟨after, hgives, hbound⟩ : ∃ after,
      (constrainAll Rotation.setting.aliases .listed [(.var ⟨0, none⟩, .var ⟨1, none⟩),
          (.var ⟨0, none⟩, .var ⟨2, none⟩), (.var ⟨3, none⟩, .con "Amount")]).Gives
        { Session.reset { next := 4 } with numeric := [⟨3, none⟩] } () after ∧
      after.subst.get? ⟨1, none⟩ = some (.var ⟨2, none⟩) := ⟨_, (rfl : runOn _ _ = _), rfl⟩
  obtain ⟨after', hgives', hbound'⟩ : ∃ after',
      (constrainAll Rotation.setting.aliases .listed [(.var ⟨3, none⟩, .con "Amount"),
          (.var ⟨0, none⟩, .var ⟨2, none⟩), (.var ⟨0, none⟩, .var ⟨1, none⟩)]).Gives
        { Session.reset { next := 4 } with numeric := [⟨3, none⟩] } () after' ∧
      after'.subst.get? ⟨2, none⟩ = some (.var ⟨1, none⟩) := ⟨_, (rfl : runOn _ _ = _), rfl⟩
  have hvariants := (order_irrelevant Rotation.varFree Rotation.acyclic .listed .listed
    { next := 4 } [⟨3, none⟩] (List.reverse_perm _).symm).2 after after' hgives hgives'
  exact ⟨after, after', hgives, hgives', hbound, hbound', hvariants⟩

end Session

end Rubric
