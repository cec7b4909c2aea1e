import Rubric.Proofs.Types.Translation
import Rubric.Proofs.Unification.Search

/-!
# Comparing searches

Two searches that take the same steps on translated types have translated outcomes. The
comparison is made once for rows of components, for any relation of searches that goes
along with sequencing: a search asks for its components one after the other, so only the
pairs that it really comes to have to be compared. The first use is that a larger bound
keeps every outcome that was reached with a smaller one.
-/

namespace Rubric

namespace UnifyError

/-- Translate the types in an error; its kind stays. -/
def mapTypes (φ : Ty → Ty) : UnifyError → UnifyError
  | mismatch expected found => mismatch (φ expected) (φ found)
  | occurs v t => occurs v (φ t)

@[simp] theorem mapTypes_id (error : UnifyError) : error.mapTypes id = error := by
  cases error <;> rfl

end UnifyError

namespace Unification

/-! ## Relations of searches -/

/-- A relation between searches over translated types and searches over the types
themselves that goes along with sequencing. -/
structure Lifts (φ : Ty → Ty) (R : Search Substitution → Search Substitution → Prop) :
    Prop where
  found : ∀ s, R (pure (s.mapTypes φ)) (pure s)
  failed : ∀ error, R (throw (error.mapTypes φ)) (throw error)
  sequence : ∀ {x y f g}, R x y → (∀ s, y.Finds s → R (f (s.mapTypes φ)) (g s)) →
    R (x >>= f) (y >>= g)

theorem lifts_eq : Lifts id Eq where
  found s := by rw [Substitution.mapTypes_id]
  failed error := by rw [UnifyError.mapTypes_id]
  sequence := by
    intro x y f g hxy hnext
    subst hxy
    apply ExceptT.ext
    rw [Search.run_bind, Search.run_bind]
    cases hrun : x.run with
    | none => rfl
    | some outcome =>
        cases outcome with
        | error error => rfl
        | ok s =>
            have hs := hnext s hrun
            rw [Substitution.mapTypes_id] at hs
            exact congrArg ExceptT.run hs

section Lifts

variable {φ : Ty → Ty} {R : Search Substitution → Search Substitution → Prop}
  {unify unify' : Ty → Ty → Search Substitution}

/-- The pairs that a row of components leads to: each one after those before it were
unified, and resolved in what was found for them. -/
def Reached (unify : Ty → Ty → Search Substitution) (pairs : List (Ty × Ty)) (x y : Ty) : Prop :=
  ∃ before c d rest found, pairs = before ++ (c, d) :: rest ∧
    (unifyEach unify before .empty).Finds found ∧ x = found.apply c ∧ y = found.apply d

theorem finds_unifyEach_snoc {before : List (Ty × Ty)} {c d : Ty} {start found more : Substitution}
    (hbefore : (unifyEach unify before start).Finds found)
    (hmore : (unify (found.apply c) (found.apply d)).Finds more) :
    (unifyEach unify (before ++ [(c, d)]) start).Finds (found.compose more) := by
  induction before generalizing start with
  | nil =>
      simp only [unifyEach, Search.finds_pure] at hbefore
      subst hbefore
      simp only [List.nil_append, unifyEach, Search.finds_bind, Search.finds_pure]
      exact ⟨more, hmore, rfl⟩
  | cons pair before ih =>
      simp only [unifyEach, Search.finds_bind] at hbefore
      obtain ⟨first, hfirst, hrest⟩ := hbefore
      simp only [List.cons_append, unifyEach, Search.finds_bind]
      exact ⟨first, hfirst, ih hrest⟩

theorem relates_unifyEach (hφ : Ty.Uniform φ) (hR : Lifts φ R) {pairs : List (Ty × Ty)}
    (hcall : ∀ x y, Reached unify pairs x y → R (unify' (φ x) (φ y)) (unify x y)) :
    R (unifyEach unify' (pairs.map (Prod.map φ φ)) .empty) (unifyEach unify pairs .empty) := by
  -- The induction is on the pairs still to come; those before them have been unified.
  have hrest : ∀ rest before found, pairs = before ++ rest →
      (unifyEach unify before .empty).Finds found →
      R (unifyEach unify' (rest.map (Prod.map φ φ)) (found.mapTypes φ))
        (unifyEach unify rest found) := by
    intro rest
    induction rest with
    | nil =>
        intro before found _ _
        exact hR.found found
    | cons pair rest ih =>
        intro before found hpairs hfound
        obtain ⟨c, d⟩ := pair
        have hpair := hcall _ _ ⟨before, c, d, rest, found, hpairs, hfound, rfl, rfl⟩
        simp only [List.map_cons, Prod.map_apply, unifyEach, Substitution.apply_mapTypes hφ]
        apply hR.sequence hpair
        intro more hmore
        rw [Substitution.compose_mapTypes hφ]
        refine ih (before ++ [(c, d)]) (found.compose more) ?_ ?_
        · rw [hpairs, List.append_assoc, List.singleton_append]
        · exact finds_unifyEach_snoc hfound hmore
  exact hrest pairs [] .empty rfl (Search.finds_pure.mpr rfl)

theorem relates_unifyParts (hφ : Ty.Uniform φ) (hR : Lifts φ R) {a b : Ty}
    (hhead : (φ a).sameHead (φ b) = a.sameHead b)
    (hchildren : a.sameHead b = true →
      (φ a).children = a.children.map φ ∧ (φ b).children = b.children.map φ)
    (hcall : a.sameHead b = true → ∀ x y, Reached unify (a.children.zip b.children) x y →
      R (unify' (φ x) (φ y)) (unify x y)) :
    R (unifyParts unify' (φ a) (φ b)) (unifyParts unify a b) := by
  rw [unifyParts_eq, unifyParts_eq, hhead]
  cases hsame : a.sameHead b with
  | false => exact hR.failed (.mismatch a b)
  | true =>
      obtain ⟨ha, hb⟩ := hchildren hsame
      rw [ha, hb, List.zip_map]
      exact relates_unifyEach hφ hR (hcall hsame)

theorem relates_unifyParts_same (hR : Lifts id R) {a b : Ty}
    (hcall : a.sameHead b = true → ∀ x y, Reached unify (a.children.zip b.children) x y →
      R (unify' x y) (unify x y)) :
    R (unifyParts unify' a b) (unifyParts unify a b) :=
  relates_unifyParts Ty.uniform_id hR rfl (fun _ => by simp) hcall

/-- Searches that differ only in what they do with heads are compared there. -/
theorem relates_dispatch (hrefl : ∀ x, R x x) {heads heads' : Ty → Ty → Search Substitution}
    {a b : Ty}
    (h : a.isVar = false → b.isVar = false → (∀ name, a = .con name → b ≠ .con name) →
      R (heads' a b) (heads a b)) :
    R (dispatch heads' a b) (dispatch heads a b) := by
  rcases pair_cases a b with ⟨v, rfl, rfl⟩ | ⟨v, rfl, hb⟩ | ⟨v, ha, rfl⟩ | ⟨name, rfl, rfl⟩ |
    ⟨ha, hb, hne⟩
  · rw [dispatch_same, dispatch_same]
    exact hrefl _
  · rw [dispatch_left hb, dispatch_left hb]
    exact hrefl _
  · rw [dispatch_right ha, dispatch_right ha]
    exact hrefl _
  · rw [dispatch_name, dispatch_name]
    exact hrefl _
  · rw [dispatch_heads ha hb hne, dispatch_heads ha hb hne]
    exact h ha hb hne

end Lifts

/-! ## Bounded searches -/

/-- Translate the outcome of a search. -/
def translated (φ : Ty → Ty) :
    Except UnifyError Substitution → Except UnifyError Substitution
  | .error error => .error (error.mapTypes φ)
  | .ok s => .ok (s.mapTypes φ)

/-- The first search gives up, or its outcome is the translated outcome of the second. -/
def Follows (φ : Ty → Ty) (x y : Search Substitution) : Prop :=
  x.run = none ∨ x.run = y.run.map (translated φ)

theorem lifts_follows (φ : Ty → Ty) : Lifts φ (Follows φ) where
  found s := .inr rfl
  failed error := .inr rfl
  sequence := by
    intro x y f g hxy hnext
    unfold Follows
    rw [Search.run_bind, Search.run_bind]
    cases hxy with
    | inl hnone =>
        left
        rw [hnone]
    | inr hrun =>
        rw [hrun]
        cases hy : y.run with
        | none => exact .inl rfl
        | some outcome =>
            cases outcome with
            | error error => exact .inr rfl
            | ok s => exact hnext s hy

theorem translated_id : translated id = id := by
  funext outcome
  cases outcome with
  | error error => simp [translated]
  | ok s => simp [translated]

theorem follows_refl (x : Search Substitution) : Follows id x x := by
  right
  rw [translated_id, Option.map_id_apply]

theorem follows_exhausted (φ : Ty → Ty) (x : Search Substitution) : Follows φ exhausted x :=
  .inl rfl

variable {aliases : Aliases}

theorem follows_of_le {depth more : Nat} (hle : depth ≤ more) (expanding : List (Ty × Ty))
    (a b : Ty) :
    Follows id (unifyWithin aliases depth expanding a b)
      (unifyWithin aliases more expanding a b) := by
  induction depth generalizing more expanding a b with
  | zero => exact follows_exhausted _ _
  | succ depth ih =>
      obtain ⟨more, rfl⟩ : ∃ fewer, more = fewer + 1 := Nat.exists_eq_add_of_le' (by omega)
      have hle' : depth ≤ more := by omega
      rw [unifyWithin_succ, unifyWithin_succ]
      apply relates_dispatch follows_refl
      intro _ _ _
      unfold unifyHeads
      dsimp only
      split
      · apply relates_unifyParts_same (lifts_follows id)
        intro _ x y _
        exact ih hle' expanding x y
      · split
        · exact follows_refl _
        · exact ih hle' _ _ _

/-- A larger bound keeps the outcome of a search that came to an end. -/
theorem run_of_le {depth more : Nat} (hle : depth ≤ more) {expanding : List (Ty × Ty)}
    {a b : Ty} {outcome : Except UnifyError Substitution}
    (h : (unifyWithin aliases depth expanding a b).run = some outcome) :
    (unifyWithin aliases more expanding a b).run = some outcome := by
  have hfollows : Follows id (unifyWithin aliases depth expanding a b)
      (unifyWithin aliases more expanding a b) := follows_of_le hle expanding a b
  unfold Follows at hfollows
  rw [h, translated_id, Option.map_id_apply] at hfollows
  cases hfollows with
  | inl hnone => cases hnone
  | inr hsame => exact hsame.symm

end Unification

end Rubric
