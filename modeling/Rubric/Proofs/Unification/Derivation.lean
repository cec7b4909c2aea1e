import Rubric.Proofs.Unification.Search

/-!
# What a unifier was derived from

A successful search leaves a derivation: a tree of the steps that contributed to the
unifier. Facts about unifiers are proved by induction on it. The variables of a unifier
come from the two types; it is in solved form; and every solution of it makes the two
types equal up to aliases. The last two hold when alias bodies have no variables.
-/

namespace Rubric

namespace Unification

mutual

/-- The ways to make two types equal. -/
inductive Unified (aliases : Aliases) : Ty → Ty → Substitution → Prop where
  | same (v : TypeVar) : Unified aliases (.var v) (.var v) .empty
  | left {v : TypeVar} {t : Ty} : t.occurs v = false →
      Unified aliases (.var v) t (.singleton v t)
  | right {v : TypeVar} {t : Ty} : t.occurs v = false →
      Unified aliases t (.var v) (.singleton v t)
  | name (name : String) : Unified aliases (.con name) (.con name) .empty
  | expand {a b : Ty} {s : Substitution} :
      Unified aliases (aliases.expand a) (aliases.expand b) s → Unified aliases a b s
  | parts {a b : Ty} {s : Substitution} : a.sameHead b = true →
      UnifiedEach aliases (a.children.zip b.children) .empty s → Unified aliases a b s

/-- The ways to make pairs of types equal one after the other, each under the
substitution found so far. -/
inductive UnifiedEach (aliases : Aliases) :
    List (Ty × Ty) → Substitution → Substitution → Prop where
  | nil (found : Substitution) : UnifiedEach aliases [] found found
  | cons {a b : Ty} {rest : List (Ty × Ty)} {found more s : Substitution} :
      Unified aliases (found.apply a) (found.apply b) more →
      UnifiedEach aliases rest (found.compose more) s →
      UnifiedEach aliases ((a, b) :: rest) found s

end

/-! ## Derivations of successful searches -/

theorem UnifiedEach.of_finds {aliases : Aliases} {unify : Ty → Ty → Search Substitution}
    (hunify : ∀ a b s, (unify a b).Finds s → Unified aliases a b s)
    {pairs : List (Ty × Ty)} {found s : Substitution}
    (h : (unifyEach unify pairs found).Finds s) : UnifiedEach aliases pairs found s := by
  induction pairs generalizing found with
  | nil =>
      simp only [unifyEach, Search.finds_pure] at h
      subst h
      exact .nil found
  | cons pair rest ih =>
      obtain ⟨a, b⟩ := pair
      simp only [unifyEach, Search.finds_bind] at h
      obtain ⟨more, hmore, hrest⟩ := h
      exact .cons (hunify _ _ _ hmore) (ih hrest)

theorem Unified.of_finds {aliases : Aliases} {depth : Nat} {expanding : List (Ty × Ty)}
    {a b : Ty} {s : Substitution}
    (h : (unifyWithin aliases depth expanding a b).Finds s) : Unified aliases a b s := by
  induction depth generalizing expanding a b s with
  | zero => simp [unifyWithin, exhausted, Search.Finds] at h
  | succ depth ih =>
      rcases pair_cases a b with ⟨v, rfl, rfl⟩ | ⟨v, rfl, hb⟩ | ⟨v, ha, rfl⟩ |
        ⟨name, rfl, rfl⟩ | ⟨ha, hb, hne⟩
      · rw [unifyWithin_same, Search.finds_pure] at h
        exact h ▸ .same v
      · rw [unifyWithin_left hb, finds_binding_iff] at h
        exact h.2 ▸ .left h.1
      · rw [unifyWithin_right ha, finds_binding_iff] at h
        exact h.2 ▸ .right h.1
      · rw [unifyWithin_name, Search.finds_pure] at h
        exact h ▸ .name name
      · rw [unifyWithin_heads ha hb hne] at h
        unfold unifyHeads at h
        dsimp only at h
        split at h
        · rw [unifyParts_eq] at h
          split at h
          · next hhead => exact .parts hhead (.of_finds (fun _ _ _ => ih) h)
          · exact (Search.not_finds_throw h).elim
        · split at h
          · exact (Search.not_finds_throw h).elim
          · exact .expand (ih h)

/-! ## Variables of unifiers -/

section Variables

variable {aliases : Aliases} {p : TypeVar → Prop}

mutual

/-- The variables of a unifier come from the two types and from alias bodies. -/
theorem Unified.all (haliases : aliases.All p) :
    {a b : Ty} → {s : Substitution} → Unified aliases a b s → a.All p → b.All p → s.All p
  | _, _, _, .same _, _, _ => Substitution.all_empty p
  | _, _, _, .left _, ha, hb => Substitution.all_singleton (Ty.all_var.mp ha) hb
  | _, _, _, .right _, ha, hb => Substitution.all_singleton (Ty.all_var.mp hb) ha
  | _, _, _, .name _, _, _ => Substitution.all_empty p
  | _, _, _, .expand h, ha, hb => h.all haliases (haliases.expand ha) (haliases.expand hb)
  | _, _, _, .parts _ h, ha, hb => by
      refine h.all haliases (Substitution.all_empty p) ?_
      intro pair hpair
      obtain ⟨hleft, hright⟩ := List.of_mem_zip hpair
      exact ⟨Ty.all_of_mem_children ha hleft, Ty.all_of_mem_children hb hright⟩

theorem UnifiedEach.all (haliases : aliases.All p) :
    {pairs : List (Ty × Ty)} → {found s : Substitution} → UnifiedEach aliases pairs found s →
      found.All p → (∀ pair ∈ pairs, pair.1.All p ∧ pair.2.All p) → s.All p
  | _, _, _, .nil _, hfound, _ => hfound
  | _, _, _, .cons h hrest, hfound, hpairs => by
      rw [List.forall_mem_cons] at hpairs
      obtain ⟨⟨ha, hb⟩, hpairs⟩ := hpairs
      have hmore := h.all haliases (hfound.apply ha) (hfound.apply hb)
      exact hrest.all haliases (hfound.compose hmore) hpairs

end

end Variables

/-! ## Solved forms -/

section Solved

variable {aliases : Aliases}

/-- What is found after resolving two types in a substitution in solved form speaks about
other variables than those the substitution has bound. -/
theorem Unified.all_free (hfree : aliases.VarFree) {found more : Substitution}
    (hfound : found.Idempotent) {a b : Ty}
    (h : Unified aliases (found.apply a) (found.apply b) more) :
    more.All fun v => found.get? v = none :=
  h.all (hfree.all _) (hfound.all_apply a) (hfound.all_apply b)

mutual

theorem Unified.idempotent (hfree : aliases.VarFree) :
    {a b : Ty} → {s : Substitution} → Unified aliases a b s → s.Idempotent
  | _, _, _, .same _ => Substitution.idempotent_empty
  | _, _, _, .left h => Substitution.idempotent_singleton h
  | _, _, _, .right h => Substitution.idempotent_singleton h
  | _, _, _, .name _ => Substitution.idempotent_empty
  | _, _, _, .expand h => h.idempotent hfree
  | _, _, _, .parts _ h => h.idempotent hfree Substitution.idempotent_empty

theorem UnifiedEach.idempotent (hfree : aliases.VarFree) :
    {pairs : List (Ty × Ty)} → {found s : Substitution} →
      UnifiedEach aliases pairs found s → found.Idempotent → s.Idempotent
  | _, _, _, .nil _, hfound => hfound
  | _, _, _, .cons h hrest, hfound =>
      hrest.idempotent hfree
        (hfound.compose (h.idempotent hfree) (h.all_free hfree hfound))

end

/-! ## Soundness -/

variable {θ : TypeVar → Ty}

mutual

/-- Every solution of a unifier makes the two types equal. -/
theorem Unified.equal (hfree : aliases.VarFree) :
    {a b : Ty} → {s : Substitution} → Unified aliases a b s →
      s.SolvedBy aliases.Equal θ → aliases.Equal (a.subst θ) (b.subst θ)
  | _, _, _, .same _, _ => .refl _
  | _, _, _, @Unified.left _ v t _, hθ => (hθ v t (by simp)).symm
  | _, _, _, @Unified.right _ v t _, hθ => hθ v t (by simp)
  | _, _, _, .name _, _ => .refl _
  | a, b, _, .expand h, hθ => by
      have ha := (aliases.equal_expand a).subst hfree θ
      have hb := (aliases.equal_expand b).subst hfree θ
      exact (ha.trans (h.equal hfree hθ)).trans hb.symm
  | a, b, _, .parts hhead h, hθ => by
      obtain ⟨ha, hb⟩ := Ty.isVar_of_sameHead hhead
      apply Aliases.Equal.node (Ty.sameHead_subst hhead θ θ)
      intro pair hpair
      rw [Ty.children_subst θ ha, Ty.children_subst θ hb, List.zip_map] at hpair
      obtain ⟨q, hq, rfl⟩ := List.mem_map.mp hpair
      exact (h.equal hfree Substitution.idempotent_empty hθ).2 q hq

/-- Every solution of what was found in the end solves what was found before, and makes
the pairs equal. -/
theorem UnifiedEach.equal (hfree : aliases.VarFree) :
    {pairs : List (Ty × Ty)} → {found s : Substitution} →
      UnifiedEach aliases pairs found s → found.Idempotent → s.SolvedBy aliases.Equal θ →
        found.SolvedBy aliases.Equal θ ∧
          ∀ pair ∈ pairs, aliases.Equal (pair.1.subst θ) (pair.2.subst θ)
  | _, _, _, .nil _, _, hθ => ⟨hθ, by simp⟩
  | _, _, _, @UnifiedEach.cons _ a b rest found more s h hrest, hfound, hθ => by
      have hc := Aliases.Equal.congruence aliases
      have hfree' := h.all_free hfree hfound
      obtain ⟨hboth, hpairs⟩ :=
        hrest.equal hfree (hfound.compose (h.idempotent hfree) hfree') hθ
      have hfirst := hboth.first hc hfree'
      refine ⟨hfirst, ?_⟩
      rw [List.forall_mem_cons]
      refine ⟨?_, hpairs⟩
      have ha := hfirst.apply hc a
      have hb := hfirst.apply hc b
      exact (ha.symm.trans (h.equal hfree (hboth.second hfree'))).trans hb

end

end Solved

end Unification

end Rubric
