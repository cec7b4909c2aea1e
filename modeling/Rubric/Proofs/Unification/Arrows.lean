import Rubric.Proofs.Unification.Recursion

/-!
# Unifying functions and new variables

Two function types are unified by unifying their inputs and then, under what was found, their
outputs. A variable that does not occur in the other type takes that type, on whichever side
it stands.
-/

namespace Rubric

namespace Unification

variable {aliases : Aliases} {a b : Ty}

theorem exists_recursion (hfree : aliases.VarFree) (a b : Ty) :
    ∃ calls, Recursion aliases [] a b (unify aliases a b) calls :=
  Recursion.of_run (run_unify hfree a b)

theorem unify_of_recursion (hfree : aliases.VarFree) {outcome : Except UnifyError Substitution}
    {calls : Nat} (h : Recursion aliases [] a b outcome calls) : unify aliases a b = outcome := by
  obtain ⟨_, hunify⟩ := exists_recursion hfree a b
  exact hunify.unique h

theorem unify_func_eq_ok (hfree : aliases.VarFree) {input output input' output' : Ty}
    {solution : Substitution} :
    unify aliases (.func input output) (.func input' output') = .ok solution ↔
      ∃ first second, unify aliases input input' = .ok first ∧
        unify aliases (first.apply output) (first.apply output') = .ok second ∧
        solution = first.compose second := by
  have hparts : ∀ outcome calls,
      RecursionEach aliases [] [(input, input'), (output, output')] .empty outcome calls →
      unify aliases (.func input output) (.func input' output') = outcome := by
    intro outcome calls hcalls
    refine unify_of_recursion hfree (.parts ⟨rfl, rfl, ?_⟩ ⟨?_, ?_⟩ rfl hcalls)
    · intro name hname
      cases hname
    · exact Aliases.expand_of_unfoldHead rfl
    · exact Aliases.expand_of_unfoldHead rfl
  obtain ⟨calls, hinputs⟩ := exists_recursion hfree input input'
  -- The first pair is met before anything has been found.
  have hfound : Recursion aliases [] (Substitution.empty.apply input)
      (Substitution.empty.apply input') (unify aliases input input') calls := by
    rw [Substitution.apply_empty, Substitution.apply_empty]
    exact hinputs
  cases hfirst : unify aliases input input' with
  | error error =>
      rw [hfirst] at hfound
      rw [hparts _ _ (.stop hfound)]
      simp
  | ok first =>
      rw [hfirst] at hfound
      obtain ⟨calls', houtputs⟩ := exists_recursion hfree (first.apply output)
        (first.apply output')
      have hfound' : Recursion aliases [] ((Substitution.empty.compose first).apply output)
          ((Substitution.empty.compose first).apply output')
          (unify aliases (first.apply output) (first.apply output')) calls' := by
        rw [Substitution.empty_compose]
        exact houtputs
      cases hsecond : unify aliases (first.apply output) (first.apply output') with
      | error error =>
          rw [hsecond] at hfound'
          rw [hparts _ _ (.next hfound (.stop hfound'))]
          simp [hsecond]
      | ok second =>
          rw [hsecond] at hfound'
          rw [hparts _ _ (.next hfound (.next hfound' (.nil _))), Substitution.empty_compose]
          simp [hsecond, eq_comm]

/-- A variable takes the type on the other side. -/
theorem unify_var_left (hfree : aliases.VarFree) {v : TypeVar} {t : Ty}
    (h : t.occurs v = false) : unify aliases (.var v) t = .ok (.singleton v t) := by
  have hne : t ≠ .var v := by
    rintro rfl
    simp at h
  rw [unify_of_recursion hfree (.left hne), bound, if_neg (by simp [h])]

theorem unify_var_right (hfree : aliases.VarFree) {v : TypeVar} {t : Ty}
    (hvar : t.isVar = false) (h : t.occurs v = false) :
    unify aliases t (.var v) = .ok (.singleton v t) := by
  rw [unify_of_recursion hfree (.right hvar), bound, if_neg (by simp [h])]

end Unification

end Rubric
