import Rubric.Proofs.Types.Chains
import Rubric.Proofs.Unification.MostGeneral

/-!
# Variables in alias bodies

A variable in an alias body is the same one wherever the alias is used, and it comes back
with every expansion, also after it was bound. The occurs check looks at one binding at a
time and does not see it. So every table with such a variable has types whose unifier is
cyclic: the variable is bound to a list of a second one, and the second one to the body.
-/

namespace Rubric

namespace Unification

variable {aliases : Aliases}

/-- An alias for a type with variables is replaced by that type, and a variable applied to
nothing takes it as it stands. -/
theorem finds_body {name : String} {body : Ty} {v w : TypeVar} (depth : Nat)
    (hbody : aliases.get? name = some body) (hv : body.occurs v = true)
    (hw : body.occurs w = false) :
    (unifyWithin aliases (depth + 3) [] (.app (.var w) []) (.app (.con name) [])).Finds
      (.singleton w body) := by
  have hname : ∀ other, body ≠ .con other := by
    rintro other rfl
    simp at hv
  have hhead : ∀ left : Aliases, left.unfoldHead (.app body []) = none := by
    intro left
    cases body <;> simp_all [Aliases.unfoldHead]
  have hvar : body ≠ .var w := by
    rintro rfl
    simp at hw
  have hopen : aliases.expand (.app (.var w) []) = .app (.var w) [] :=
    Aliases.expand_of_unfoldHead rfl
  have hshut : aliases.expand (.app body []) = .app body [] :=
    Aliases.expand_of_unfoldHead (hhead aliases)
  have hunfold : aliases.unfoldHead (.app (.con name) []) = some (name, .app body []) := by
    simp [Aliases.unfoldHead, hbody]
  have hexpand := Aliases.expand_of_unfoldHead_some hunfold hhead
  have hnew : (.app body [] : Ty) ≠ .app (.con name) [] := by
    simpa using hname name
  rw [unifyWithin_heads rfl rfl (by simp)]
  simp only [unifyHeads, hopen, hexpand, hnew, and_false, if_false, List.not_mem_nil]
  rw [unifyWithin_heads rfl rfl (by simp)]
  simp only [unifyHeads, hopen, hshut, and_self, if_true, unifyParts_eq, Ty.sameHead,
    Ty.children, List.length_nil, List.zip_cons_cons, List.zip_nil_left, unifyEach,
    Substitution.apply_empty, unifyWithin_left hvar]
  simpa using finds_binding_iff.mpr ⟨hw, rfl⟩

theorem size_lt_depthBound (aliases : Aliases) (a b : Ty) : a.size < depthBound aliases a b := by
  unfold depthBound
  refine Nat.lt_of_lt_of_le ?_ (Nat.le_mul_of_pos_right _ (Nat.succ_pos _))
  refine Nat.lt_of_lt_of_le ?_ (Nat.le_mul_of_pos_right _ (Nat.succ_pos _))
  omega

/-- The first component binds one variable, and the second one binds another variable to
an alias body as it is declared, with the first variable in it. -/
theorem unify_alias_body {name : String} {body : Ty} {v w : TypeVar}
    (hbody : aliases.get? name = some body) (hv : body.occurs v = true)
    (hw : body.occurs w = false) (hvw : v ≠ w) :
    unify aliases (.tuple [.var v, .app (.var w) []])
        (.tuple [.list (.var w), .app (.con name) []]) =
      .ok ((Substitution.singleton v (.list (.var w))).compose (.singleton w body)) := by
  let left : Ty := .tuple [.var v, .app (.var w) []]
  let right : Ty := .tuple [.list (.var w), .app (.con name) []]
  let first : Substitution := .singleton v (.list (.var w))
  have hleft : aliases.expand left = left := Aliases.expand_of_unfoldHead rfl
  have hright : aliases.expand right = right := Aliases.expand_of_unfoldHead rfl
  obtain ⟨depth, hdepth⟩ : ∃ depth, depthBound aliases left right = depth + 4 := by
    have hsize : 3 ≤ left.size := by simp +arith [left]
    exact Nat.exists_eq_add_of_le' (Nat.lt_of_le_of_lt hsize (size_lt_depthBound ..))
  -- The first binding does not reach the second components: the alias still hides the body.
  have happly : first.apply (.app (.var w) []) = .app (.var w) [] := by
    refine Substitution.apply_of_free ?_
    intro u hu
    obtain rfl : u = w := by simpa using hu
    simp [first, hvw]
  have happly' : first.apply (.app (.con name) []) = .app (.con name) [] := by
    refine Substitution.apply_of_free ?_
    intro u hu
    simp at hu
  show unify aliases left right = .ok (first.compose (.singleton w body))
  rw [unify_ok_iff, hdepth, unifyWithin_heads rfl rfl (by simp [left])]
  simp only [unifyHeads, hleft, hright, and_self, if_true, unifyParts_eq]
  simp only [left, right, Ty.sameHead, Ty.children, List.length_cons, List.length_nil,
    decide_true, if_true, List.zip_cons_cons, List.zip_nil_left, unifyEach,
    Substitution.apply_empty, Substitution.empty_compose, Search.finds_bind, Search.finds_pure]
  refine ⟨first, ?_, .singleton w body, ?_, rfl⟩
  · rw [unifyWithin_left (by simp)]
    exact finds_binding_iff.mpr ⟨by simpa using hvw, rfl⟩
  · rw [happly, happly']
    exact finds_body depth hbody hv hw

/-- An alias body with a variable makes some unifier cyclic. -/
theorem exists_cyclic_of_occurs {name : String} {body : Ty} {v : TypeVar}
    (hbody : aliases.get? name = some body) (hv : body.occurs v = true) :
    ∃ a b s, unify aliases a b = .ok s ∧ ¬ s.Acyclic := by
  obtain ⟨w, hw⟩ := body.exists_not_occurs
  have hvw : v ≠ w := by
    rintro rfl
    rw [hv] at hw
    cases hw
  refine ⟨_, _, _, unify_alias_body hbody hv hw hvw, ?_⟩
  intro hacyclic
  refine hacyclic v (.single ⟨(Substitution.singleton w body).apply (.list (.var w)), ?_, ?_⟩)
  · exact Substitution.compose_of_bound (by simp)
  · rw [(Substitution.idempotent_singleton hw).apply_eq]
    simpa [Substitution.image] using hv

end Unification

end Rubric
