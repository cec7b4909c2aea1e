import Rubric.Proofs.Unification.Simulation
import Rubric.Proofs.Unification.Stock

/-!
# The guard against repeated expansion

A pair of types whose expansion is under way is refused when it comes around again. When
no alias leads back to itself this never happens. Variables are solved between the two
visits, so the pair at hand is compared with an instance of the remembered pair: its full
expansion lies inside that of the instance, and properly inside it as soon as the search
has gone down to a component. Just after the expansion the two have the same full
expansion, but then there is nothing left to expand.
-/

namespace Rubric

namespace Unification

/-- The search that remembers no pairs. -/
def unguarded (aliases : Aliases) : Nat → Ty → Ty → Search Substitution
  | 0 => fun _ _ => exhausted
  | depth + 1 => dispatch (unifyHeads aliases [] fun _ => unguarded aliases depth)

variable {aliases : Aliases}

theorem unguarded_succ {depth : Nat} {a b : Ty} :
    unguarded aliases (depth + 1) a b =
      dispatch (unifyHeads aliases [] fun _ => unguarded aliases depth) a b := rfl

theorem unguarded_var {depth : Nat} (v : TypeVar) :
    unguarded aliases (depth + 1) (.var v) (.var v) = pure .empty :=
  dispatch_same v

theorem unguarded_name {depth : Nat} (name : String) :
    unguarded aliases (depth + 1) (.con name) (.con name) = pure .empty :=
  dispatch_name name

/-! ## Pairs inside remembered pairs -/

/-- The full expansion of a type lies inside that of an instance of a remembered pair. The
instance is by a valuation that leaves the variables of the pair at hand alone. -/
structure Inside (aliases : Aliases) (pair : Ty × Ty) (σ : TypeVar → Ty) (a b : Ty) : Prop where
  left : a.All fun v => σ v = .var v
  right : b.All fun v => σ v = .var v
  subterm : aliases.normal a ∈ (aliases.normal (pair.1.subst σ)).subterms
  expanded : aliases.normal a = aliases.normal (pair.1.subst σ) →
    aliases.expand a = a ∧ aliases.expand b = b

section Inside

variable {pair : Ty × Ty} {σ : TypeVar → Ty} {a b : Ty}

/-- A pair that is its own remembered pair has nothing to expand. -/
theorem Inside.expand_eq (h : Inside aliases (a, b) σ a b) :
    aliases.expand a = a ∧ aliases.expand b = b := by
  apply h.expanded
  rw [Ty.subst_eq_self h.left]

theorem expand_expand (hacyclic : aliases.Acyclic) (t : Ty) :
    aliases.expand (aliases.expand t) = aliases.expand t :=
  Aliases.expand_of_unfoldHead (Aliases.unfoldHead_expand hacyclic t)

theorem inside_of_expansion (hacyclic : aliases.Acyclic) (a b : Ty) :
    Inside aliases (a, b) .var (aliases.expand a) (aliases.expand b) where
  left _ _ := rfl
  right _ _ := rfl
  subterm := by
    rw [Aliases.normal_expand hacyclic, Ty.subst_var]
    exact Ty.mem_subterms_self _
  expanded _ := ⟨expand_expand hacyclic a, expand_expand hacyclic b⟩

theorem Inside.expansion (hfree : aliases.VarFree) (hacyclic : aliases.Acyclic)
    (h : Inside aliases pair σ a b) :
    Inside aliases pair σ (aliases.expand a) (aliases.expand b) where
  left := (hfree.all _).expand h.left
  right := (hfree.all _).expand h.right
  subterm := by
    rw [Aliases.normal_expand hacyclic]
    exact h.subterm
  expanded _ := ⟨expand_expand hacyclic a, expand_expand hacyclic b⟩

/-- Going down to components, after a solution of some variables of the pair at hand. -/
theorem Inside.component (hfree : aliases.VarFree) (h : Inside aliases pair σ a b)
    {found : Substitution} (hsolved : found.Idempotent)
    (hfound : found.All fun v => σ v = .var v) {c d : Ty} (hc : c ∈ a.children)
    (hd : d ∈ b.children) :
    Inside aliases pair (found.after σ) (found.apply c) (found.apply d) := by
  have hfixed : ∀ t : Ty, (t.All fun v => σ v = .var v) →
      (found.apply t).All fun v => found.after σ v = .var v := by
    intro t ht v hv
    have hσ : σ v = .var v := hfound.apply ht v hv
    have hunbound : found.get? v = none := hsolved.all_apply t v hv
    calc
      found.after σ v = (Ty.var v).subst found.image := by rw [Substitution.after, hσ]
      _ = .var v := Substitution.image_of_free hunbound
  have hnormal := Aliases.uniform_normal hfree
  have hnotName : ∀ name, a ≠ .con name := by
    intro name heq
    simp [heq, Ty.children] at hc
  -- Both types are instances of what they were before under one further valuation.
  let θ : TypeVar → Ty := fun v => aliases.normal (found.image v)
  have hpart : aliases.normal (found.apply c) = (aliases.normal c).subst θ := by
    rw [hsolved.apply_eq, hnormal.subst]
  have hwhole : aliases.normal (pair.1.subst (found.after σ)) =
      (aliases.normal (pair.1.subst σ)).subst θ := by
    rw [Substitution.subst_after, hnormal.subst]
  have hchild : aliases.normal c ∈ (aliases.normal a).children := by
    rw [Aliases.children_normal aliases hnotName]
    exact List.mem_map_of_mem hc
  have hsmaller : (aliases.normal (found.apply c)).size <
      (aliases.normal (pair.1.subst (found.after σ))).size := by
    have hbelow : (aliases.normal c).subst θ ∈ ((aliases.normal a).subst θ).children := by
      rw [Ty.children_subst θ (Ty.isVar_of_mem_children hchild)]
      exact List.mem_map_of_mem hchild
    have hinside := Ty.size_le_of_mem_subterms (Ty.mem_subterms_subst θ h.subterm)
    have hlt := Ty.size_lt_of_mem_children hbelow
    rw [hpart, hwhole]
    omega
  constructor
  · exact hfixed c (Ty.all_of_mem_children h.left hc)
  · exact hfixed d (Ty.all_of_mem_children h.right hd)
  · rw [hpart, hwhole]
    exact Ty.mem_subterms_subst θ (Ty.mem_subterms_of_mem_children h.subterm hchild)
  · intro heq
    rw [heq] at hsmaller
    exact (Nat.lt_irrefl _ hsmaller).elim

end Inside

/-! ## The guarded search -/

/-- The pair at hand lies inside every remembered pair. -/
def Passes (aliases : Aliases) (expanding : List (Ty × Ty)) (a b : Ty) : Prop :=
  ∀ pair ∈ expanding, ∃ σ, Inside aliases pair σ a b

theorem passes_nil (a b : Ty) : Passes aliases [] a b := by
  intro pair hpair
  cases hpair

section Passes

variable {expanding : List (Ty × Ty)} {a b : Ty}

theorem Passes.expansion (hfree : aliases.VarFree) (hacyclic : aliases.Acyclic)
    (h : Passes aliases expanding a b) :
    Passes aliases ((a, b) :: expanding) (aliases.expand a) (aliases.expand b) := by
  intro pair hpair
  cases List.mem_cons.mp hpair with
  | inl heq =>
      subst heq
      exact ⟨.var, inside_of_expansion hacyclic a b⟩
  | inr hmem =>
      obtain ⟨σ, hσ⟩ := h pair hmem
      exact ⟨σ, hσ.expansion hfree hacyclic⟩

theorem Passes.component (hfree : aliases.VarFree) (h : Passes aliases expanding a b)
    {unify : Ty → Ty → Search Substitution}
    (hunify : ∀ x y s, (unify x y).Finds s → Unified aliases x y s) {x y : Ty}
    (hreached : Reached unify (a.children.zip b.children) x y) :
    Passes aliases expanding x y := by
  intro pair hpair
  obtain ⟨σ, hσ⟩ := h pair hpair
  obtain ⟨before, c, d, rest, found, hpairs, hfound, rfl, rfl⟩ := hreached
  have hmem : ∀ p ∈ before ++ (c, d) :: rest, p.1 ∈ a.children ∧ p.2 ∈ b.children := by
    intro p hp
    rw [← hpairs] at hp
    exact List.of_mem_zip hp
  have heach := UnifiedEach.of_finds hunify hfound
  have hsolved := heach.idempotent hfree Substitution.idempotent_empty
  have hvars : found.All fun v => σ v = .var v := by
    apply heach.all (hfree.all _) (Substitution.all_empty _)
    intro p hp
    have hparts := hmem p (List.mem_append_left _ hp)
    exact ⟨Ty.all_of_mem_children hσ.left hparts.1, Ty.all_of_mem_children hσ.right hparts.2⟩
  have hpart := hmem (c, d) (by simp)
  exact ⟨found.after σ, hσ.component hfree hsolved hvars hpart.1 hpart.2⟩

/-- Remembering pairs makes no difference. -/
theorem unifyWithin_eq_unguarded (hfree : aliases.VarFree) (hacyclic : aliases.Acyclic)
    (h : Passes aliases expanding a b) (depth : Nat) :
    unifyWithin aliases depth expanding a b = unguarded aliases depth a b := by
  induction depth generalizing expanding a b with
  | zero => rfl
  | succ depth ih =>
      rw [unifyWithin_succ, unguarded_succ]
      apply relates_dispatch fun _ => rfl
      intro _ _ _
      unfold unifyHeads
      dsimp only
      by_cases hfixed : aliases.expand a = a ∧ aliases.expand b = b
      · rw [if_pos hfixed, if_pos hfixed]
        apply Eq.symm
        apply relates_unifyParts_same lifts_eq
        intro _ x y hreached
        exact (ih (h.component hfree (fun _ _ _ => .of_finds) hreached)).symm
      · have hnew : (a, b) ∉ expanding := by
          intro hmem
          obtain ⟨σ, hσ⟩ := h (a, b) hmem
          exact hfixed hσ.expand_eq
        rw [if_neg hfixed, if_neg hnew, if_neg hfixed, if_neg List.not_mem_nil]
        exact ih (h.expansion hfree hacyclic)

end Passes

end Unification

end Rubric
