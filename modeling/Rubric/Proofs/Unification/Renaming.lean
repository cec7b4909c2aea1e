import Rubric.Proofs.Types.Renaming
import Rubric.Proofs.Unification.Search

/-!
# Unification does not look at names

The search for a unifier compares variables with each other and nothing else about them. On
renamed types it takes the same steps, within the same bound, and ends in the renamed
outcome, for every injective renaming that leaves the variables of alias bodies alone.
-/

namespace Rubric

/-- Rename the variables in an error. -/
def UnifyError.rename (ρ : TypeVar → TypeVar) : UnifyError → UnifyError
  | mismatch expected found => mismatch (expected.rename ρ) (found.rename ρ)
  | occurs v t => occurs (ρ v) (t.rename ρ)

namespace Unification

/-- Rename the variables in an outcome. -/
def renamed (ρ : TypeVar → TypeVar) :
    Except UnifyError Substitution → Except UnifyError Substitution
  | .error error => .error (error.rename ρ)
  | .ok s => .ok (s.rename ρ)

/-- The first search ends in the renamed outcome of the second, or both give up. -/
def Renames (ρ : TypeVar → TypeVar) (x y : Search Substitution) : Prop :=
  x.run = y.run.map (renamed ρ)

section Renames

variable {ρ : TypeVar → TypeVar}

theorem renames_pure (s : Substitution) : Renames ρ (pure (s.rename ρ)) (pure s) := rfl

theorem renames_throw (error : UnifyError) : Renames ρ (throw (error.rename ρ)) (throw error) :=
  rfl

theorem Renames.bind {x y : Search Substitution} {f g : Substitution → Search Substitution}
    (h : Renames ρ x y) (hnext : ∀ s, Renames ρ (f (s.rename ρ)) (g s)) :
    Renames ρ (x >>= f) (y >>= g) := by
  unfold Renames
  rw [Search.run_bind, Search.run_bind, h]
  cases y.run with
  | none => rfl
  | some outcome =>
      cases outcome with
      | error error => rfl
      | ok s => exact hnext s

variable (hρ : Function.Injective ρ)

include hρ

theorem renames_bind (v : TypeVar) (t : Ty) :
    Renames ρ (Unification.bind (ρ v) (t.rename ρ)) (Unification.bind v t) := by
  unfold Unification.bind
  rw [Ty.occurs_rename hρ]
  split
  · exact renames_throw (.occurs v t)
  · exact renames_pure (.singleton v t)

theorem renames_unifyEach {unify unify' : Ty → Ty → Search Substitution}
    (hunify : ∀ a b, Renames ρ (unify' (a.rename ρ) (b.rename ρ)) (unify a b))
    (pairs : List (Ty × Ty)) (found : Substitution) :
    Renames ρ (unifyEach unify' (pairs.map (Prod.map (Ty.rename ρ) (Ty.rename ρ)))
      (found.rename ρ)) (unifyEach unify pairs found) := by
  induction pairs generalizing found with
  | nil => exact renames_pure found
  | cons pair rest ih =>
      obtain ⟨a, b⟩ := pair
      simp only [List.map_cons, Prod.map_apply, unifyEach, Substitution.apply_rename hρ]
      refine (hunify _ _).bind fun more => ?_
      rw [Substitution.compose_rename hρ]
      exact ih _

theorem renames_unifyParts {unify unify' : Ty → Ty → Search Substitution}
    (hunify : ∀ a b, Renames ρ (unify' (a.rename ρ) (b.rename ρ)) (unify a b)) (a b : Ty) :
    Renames ρ (unifyParts unify' (a.rename ρ) (b.rename ρ)) (unifyParts unify a b) := by
  rw [unifyParts_eq, unifyParts_eq, Ty.sameHead_rename]
  split
  · rw [Ty.children_rename, Ty.children_rename, List.zip_map]
    exact renames_unifyEach hρ hunify _ .empty
  · exact renames_throw (.mismatch a b)

theorem renames_dispatch {heads heads' : Ty → Ty → Search Substitution}
    (hheads : ∀ a b, Renames ρ (heads' (a.rename ρ) (b.rename ρ)) (heads a b)) (a b : Ty) :
    Renames ρ (dispatch heads' (a.rename ρ) (b.rename ρ)) (dispatch heads a b) := by
  rcases pair_cases a b with ⟨v, rfl, rfl⟩ | ⟨v, rfl, hb⟩ | ⟨v, ha, rfl⟩ | ⟨name, rfl, rfl⟩ |
    ⟨ha, hb, hne⟩
  · rw [Ty.rename_var, dispatch_same, dispatch_same]
    exact renames_pure .empty
  · have hb' : b.rename ρ ≠ .var (ρ v) := fun heq => hb (Ty.rename_injective hρ heq)
    rw [Ty.rename_var, dispatch_left hb', dispatch_left hb]
    exact renames_bind hρ v b
  · rw [Ty.rename_var, dispatch_right (by rwa [Ty.isVar_rename]), dispatch_right ha]
    exact renames_bind hρ v a
  · rw [Ty.rename_con, dispatch_name, dispatch_name]
    exact renames_pure .empty
  · have hne' : ∀ name, a.rename ρ = .con name → b.rename ρ ≠ .con name := by
      intro name hname hname'
      exact hne name (Ty.rename_injective hρ hname) (Ty.rename_injective hρ hname')
    rw [dispatch_heads (by rwa [Ty.isVar_rename]) (by rwa [Ty.isVar_rename]) hne',
      dispatch_heads ha hb hne]
    exact hheads a b

variable {aliases : Aliases} (hfix : aliases.All fun v => ρ v = v)

include hfix

theorem renames_unifyWithin (depth : Nat) (expanding : List (Ty × Ty)) (a b : Ty) :
    Renames ρ (unifyWithin aliases depth (expanding.map (Prod.map (Ty.rename ρ) (Ty.rename ρ)))
      (a.rename ρ) (b.rename ρ)) (unifyWithin aliases depth expanding a b) := by
  induction depth generalizing expanding a b with
  | zero => rfl
  | succ depth ih =>
      rw [unifyWithin_succ, unifyWithin_succ]
      refine renames_dispatch hρ (fun a b => ?_) a b
      have hinjective := Ty.rename_injective hρ
      have hpairs : Function.Injective (Prod.map (Ty.rename ρ) (Ty.rename ρ)) :=
        hinjective.prodMap hinjective
      have hmem : (a.rename ρ, b.rename ρ) ∈
          expanding.map (Prod.map (Ty.rename ρ) (Ty.rename ρ)) ↔ (a, b) ∈ expanding :=
        List.mem_map_of_injective (a := (a, b)) hpairs
      unfold unifyHeads
      simp only [Aliases.expand_rename hfix, hinjective.eq_iff, hmem]
      split
      · exact renames_unifyParts hρ (ih expanding) a b
      · split
        · exact renames_throw (.mismatch a b)
        · exact ih ((a, b) :: expanding) _ _

/-- Renamed types have the renamed unifier, or fail with the renamed error. -/
theorem unify_rename (a b : Ty) :
    unify aliases (a.rename ρ) (b.rename ρ) = renamed ρ (unify aliases a b) := by
  have hbound : depthBound aliases (a.rename ρ) (b.rename ρ) = depthBound aliases a b := by
    simp only [depthBound, Ty.size_rename]
  have hrun : (unifyWithin aliases (depthBound aliases a b) [] (a.rename ρ) (b.rename ρ)).run =
      (unifyWithin aliases (depthBound aliases a b) [] a b).run.map (renamed ρ) :=
    renames_unifyWithin hρ hfix _ [] a b
  unfold unify
  rw [hbound, hrun]
  cases (unifyWithin aliases (depthBound aliases a b) [] a b).run with
  | none => rfl
  | some outcome => rfl

end Renames

end Unification

end Rubric
