import Rubric.Proofs.Types.Normal
import Rubric.Proofs.Unification.Depth

/-!
# Unifiers are most general

A valuation that makes two types equal up to aliases solves every unifier that the
search derives for them, so the unifier says no more than the equation does. The search
finds one: whatever it takes apart has a smaller full expansion under the valuation, so
neither the occurs check nor the guard against repeated expansion can stop it. This
needs alias bodies without variables and aliases without cycles.
-/

namespace Rubric

namespace Unification

variable {aliases : Aliases} {θ : TypeVar → Ty}

/-! ## Valuations solve unifiers -/

/-- Equality of full expansions. -/
def SameNormal (aliases : Aliases) (a b : Ty) : Prop :=
  aliases.normal a = aliases.normal b

theorem value_apply {s : Substitution} (h : s.SolvedBy (SameNormal aliases) θ) (t : Ty) :
    aliases.value θ (s.apply t) = aliases.value θ t :=
  h.apply aliases.normal_congruence t

mutual

/-- A valuation that makes two types equal solves their unifier. -/
theorem Unified.solvedBy (hfree : aliases.VarFree) (hacyclic : aliases.Acyclic) :
    {a b : Ty} → {s : Substitution} → Unified aliases a b s →
      aliases.value θ a = aliases.value θ b → s.SolvedBy (SameNormal aliases) θ
  | _, _, _, .same _, _ => Substitution.solvedBy_empty
  | _, _, _, .left _, h => Substitution.solvedBy_singleton h.symm
  | _, _, _, .right _, h => Substitution.solvedBy_singleton h
  | _, _, _, .name _, _ => Substitution.solvedBy_empty
  | a, b, _, .expand hunified, h => by
      apply hunified.solvedBy hfree hacyclic
      rw [Aliases.value_expand hfree hacyclic, Aliases.value_expand hfree hacyclic, h]
  | _, _, _, .parts hhead heach, h =>
      heach.solvedBy hfree hacyclic Substitution.solvedBy_empty (Aliases.value_parts hhead h)

theorem UnifiedEach.solvedBy (hfree : aliases.VarFree) (hacyclic : aliases.Acyclic) :
    {pairs : List (Ty × Ty)} → {found s : Substitution} → UnifiedEach aliases pairs found s →
      found.SolvedBy (SameNormal aliases) θ →
        (∀ pair ∈ pairs, aliases.value θ pair.1 = aliases.value θ pair.2) →
          s.SolvedBy (SameNormal aliases) θ
  | _, _, _, .nil _, hfound, _ => hfound
  | _, _, _, .cons hunified hrest, hfound, hpairs => by
      rw [List.forall_mem_cons] at hpairs
      have hmore := hunified.solvedBy hfree hacyclic
        (by rw [value_apply hfound, value_apply hfound, hpairs.1])
      exact hrest.solvedBy hfree hacyclic
        (hfound.compose hmore aliases.normal_congruence) hpairs.2

end

/-! ## Solvable equations have unifiers -/

theorem not_fails_binding {v : TypeVar} {t : Ty} (hne : t ≠ .var v)
    (h : aliases.value θ (.var v) = aliases.value θ t) : ¬ (bind v t).Fails := by
  have hocc : t.occurs v = false := by
    by_contra hocc
    rcases Aliases.size_value_lt_of_occurs (Bool.eq_true_of_not_eq_false hocc) with heq | hlt
    · exact hne heq
    · rw [h] at hlt
      exact Nat.lt_irrefl _ hlt
  unfold bind
  simp [hocc]

theorem not_fails_unifyEach (hfree : aliases.VarFree) (hacyclic : aliases.Acyclic)
    (θ : TypeVar → Ty) (bound : Nat) {unify : Ty → Ty → Search Substitution}
    (hfinds : ∀ x y s, (unify x y).Finds s → Unified aliases x y s)
    (hunify : ∀ x y, aliases.value θ x = aliases.value θ y →
      (aliases.value θ x).size < bound → ¬ (unify x y).Fails)
    {pairs : List (Ty × Ty)}
    (hpairs : ∀ pair ∈ pairs, aliases.value θ pair.1 = aliases.value θ pair.2 ∧
      (aliases.value θ pair.1).size < bound)
    {found : Substitution} (hfound : found.SolvedBy (SameNormal aliases) θ) :
    ¬ (unifyEach unify pairs found).Fails := by
  induction pairs generalizing found with
  | nil => simp [unifyEach]
  | cons pair rest ih =>
      obtain ⟨x, y⟩ := pair
      rw [List.forall_mem_cons] at hpairs
      obtain ⟨⟨heq, hlt⟩, hpairs⟩ := hpairs
      have hresolved : aliases.value θ (found.apply x) = aliases.value θ (found.apply y) := by
        rw [value_apply hfound, value_apply hfound, heq]
      simp only [unifyEach, Search.fails_bind]
      rintro (hfails | ⟨more, hmore, hfails⟩)
      · exact hunify _ _ hresolved (by rwa [value_apply hfound]) hfails
      · have hsolved := (hfinds _ _ _ hmore).solvedBy hfree hacyclic hresolved
        exact ih hpairs (hfound.compose hsolved aliases.normal_congruence) hfails

/-- The pairs being expanded are larger than the pair at hand, or as large if the heads
at hand are no aliases. -/
def Guarded (aliases : Aliases) (θ : TypeVar → Ty) (expanding : List (Ty × Ty)) (a b : Ty) :
    Prop :=
  ∀ pair ∈ expanding, (aliases.value θ a).size < (aliases.value θ pair.1).size ∨
    ((aliases.value θ a).size = (aliases.value θ pair.1).size ∧
      aliases.expand a = a ∧ aliases.expand b = b)

theorem not_fails_unifyWithin (hfree : aliases.VarFree) (hacyclic : aliases.Acyclic)
    {depth : Nat} {expanding : List (Ty × Ty)} {a b : Ty}
    (h : aliases.value θ a = aliases.value θ b) (hguard : Guarded aliases θ expanding a b) :
    ¬ (unifyWithin aliases depth expanding a b).Fails := by
  induction depth generalizing expanding a b with
  | zero => simp [unifyWithin, exhausted, Search.Fails]
  | succ depth ih =>
      rcases pair_cases a b with ⟨v, rfl, rfl⟩ | ⟨v, rfl, hne⟩ | ⟨v, havar, rfl⟩ |
        ⟨name, rfl, rfl⟩ | ⟨havar, hbvar, hne⟩
      · rw [unifyWithin_same]
        exact Search.not_fails_pure
      · rw [unifyWithin_left hne]
        exact not_fails_binding hne h
      · rw [unifyWithin_right havar]
        refine not_fails_binding ?_ h.symm
        rintro rfl
        simp [Ty.isVar] at havar
      · rw [unifyWithin_name]
        exact Search.not_fails_pure
      · rw [unifyWithin_heads havar hbvar hne]
        unfold unifyHeads
        dsimp only
        split
        · next hexpanded =>
            -- No alias at either head, so the full expansions agree in their heads.
            have hahead := Aliases.unfoldHead_expand hacyclic a
            have hbhead := Aliases.unfoldHead_expand hacyclic b
            rw [hexpanded.1] at hahead
            rw [hexpanded.2] at hbhead
            rcases Aliases.value_heads havar hbvar hahead hbhead h with ⟨name, hna, hnb⟩ | hhead
            · exact (hne name hna hnb).elim
            · rw [unifyParts_eq, if_pos hhead]
              refine not_fails_unifyEach hfree hacyclic θ (aliases.value θ a).size
                (fun _ _ _ => Unified.of_finds) ?_ ?_ Substitution.solvedBy_empty
              · intro x y hxy hlt
                refine ih hxy ?_
                intro pair hpair
                rcases hguard pair hpair with hlarge | ⟨hsame, _⟩ <;> left <;> omega
              · intro pair hpair
                exact ⟨Aliases.value_parts hhead h pair hpair,
                  Aliases.size_value_child_lt aliases θ (List.of_mem_zip hpair).1⟩
        · next hexpand =>
            split
            · next hmem =>
                -- A pair that is being expanded would have to be smaller than itself.
                rcases hguard (a, b) hmem with hlt | ⟨_, hfix⟩
                · exact (Nat.lt_irrefl _ hlt).elim
                · exact (hexpand hfix).elim
            · refine ih ?_ ?_
              · rw [Aliases.value_expand hfree hacyclic, Aliases.value_expand hfree hacyclic, h]
              · intro pair hpair
                have hafix := Aliases.expand_of_unfoldHead (Aliases.unfoldHead_expand hacyclic a)
                have hbfix := Aliases.expand_of_unfoldHead (Aliases.unfoldHead_expand hacyclic b)
                rw [Aliases.value_expand hfree hacyclic]
                rcases List.mem_cons.mp hpair with rfl | hpair
                · exact .inr ⟨rfl, hafix, hbfix⟩
                · rcases hguard pair hpair with hlt | ⟨hsame, _⟩
                  · exact .inl hlt
                  · exact .inr ⟨hsame, hafix, hbfix⟩

/-! ## The unifier of two types -/

theorem unify_ok_iff {a b : Ty} {s : Substitution} :
    unify aliases a b = .ok s ↔
      (unifyWithin aliases (depthBound aliases a b) [] a b).Finds s := by
  unfold unify Search.Finds
  cases h : (unifyWithin aliases (depthBound aliases a b) [] a b).run with
  | none => simp
  | some outcome => simp

/-- A unifier that was found has a derivation. -/
theorem Unified.of_unify {a b : Ty} {s : Substitution} (h : unify aliases a b = .ok s) :
    Unified aliases a b s :=
  .of_finds (unify_ok_iff.mp h)

/-- Types that a valuation makes equal have a unifier, which the valuation solves. -/
theorem exists_unify (hfree : aliases.VarFree) (hacyclic : aliases.Acyclic) {a b : Ty}
    (h : aliases.value θ a = aliases.value θ b) :
    ∃ s, unify aliases a b = .ok s ∧ s.SolvedBy (SameNormal aliases) θ := by
  have hends := ends_depthBound hfree a b
  have hsucceeds : ¬ (unifyWithin aliases (depthBound aliases a b) [] a b).Fails :=
    not_fails_unifyWithin hfree hacyclic h (by simp [Guarded])
  unfold Search.Ends at hends
  unfold Search.Fails at hsucceeds
  cases hrun : (unifyWithin aliases (depthBound aliases a b) [] a b).run with
  | none => exact (hends hrun).elim
  | some outcome =>
      cases outcome with
      | error error => exact (hsucceeds ⟨error, hrun⟩).elim
      | ok s =>
          have hok := unify_ok_iff.mpr hrun
          exact ⟨s, hok, (Unified.of_unify hok).solvedBy hfree hacyclic h⟩

/-! ## Unifiers without aliases -/

theorem value_empty (θ : TypeVar → Ty) (t : Ty) : Aliases.empty.value θ t = t.subst θ :=
  Aliases.normal_empty _

/-- A unifier makes the two types the same. -/
theorem apply_eq_of_unify {a b : Ty} {s : Substitution} (h : unify .empty a b = .ok s) :
    s.apply a = s.apply b := by
  have hunified := Unified.of_unify h
  have hs := hunified.idempotent Aliases.varFree_empty
  have hequal := hunified.equal Aliases.varFree_empty
    (hs.solvedBy_image (Aliases.Equal.congruence .empty))
  rw [hs.apply_eq, hs.apply_eq]
  exact hequal.normal_eq Aliases.acyclic_empty

/-- A unifier makes the two types equal up to aliases, whatever the aliases refer to, and is
in solved form. Without aliases the two types become the same. -/
theorem unify_sound (hfree : aliases.VarFree) {a b : Ty} {s : Substitution}
    (h : unify aliases a b = .ok s) :
    aliases.Equal (s.apply a) (s.apply b) ∧ s.Idempotent ∧
      (aliases = .empty → s.apply a = s.apply b) := by
  have hunified := Unified.of_unify h
  have hs := hunified.idempotent hfree
  refine ⟨?_, hs, ?_⟩
  · rw [hs.apply_eq, hs.apply_eq]
    exact hunified.equal hfree (hs.solvedBy_image (Aliases.Equal.congruence aliases))
  · rintro rfl
    exact apply_eq_of_unify h

/-- A chain of two aliases, an alias for a list of itself and one for an application of
itself, all met in one unification. -/
theorem unify_sound_loops :
    ∃ (aliases : Aliases) (a b : Ty) (s : Substitution),
      aliases.get? "Loop" = some (.list (.con "Loop")) ∧
      aliases.get? "Wrap" = some (.app (.con "Wrap") [.con "Name"]) ∧
      unify aliases a b = .ok s ∧ s.get? ⟨0, none⟩ = some (.list (.con "Text")) ∧
      aliases.Equal (s.apply a) (s.apply b) ∧ s.Idempotent := by
  let aliases : Aliases := .ofList
    [("Name", .con "Text"), ("Text", .string), ("Loop", .list (.con "Loop")),
      ("Wrap", .app (.con "Wrap") [.con "Name"])]
  let a : Ty := .tuple [.con "Loop", .var ⟨0, none⟩, .func (.con "Wrap") (.var ⟨1, none⟩),
    .con "Name"]
  let b : Ty := .tuple [.list (.con "Loop"), .list (.con "Text"),
    .func (.con "Wrap") (.app (.con "Wrap") [.var ⟨0, none⟩]), .string]
  have hfree : aliases.VarFree := by
    refine (((Aliases.varFree_empty.insert ?_).insert ?_).insert ?_).insert ?_ <;>
      simp [Ty.Closed, Ty.string]
  obtain ⟨s, hs, hbound⟩ : ∃ s, unify aliases a b = .ok s ∧
      s.get? ⟨0, none⟩ = some (.list (.con "Text")) := by
    refine ⟨_, rfl, ?_⟩
    rfl
  obtain ⟨hequal, hsolved, _⟩ := unify_sound hfree hs
  exact ⟨aliases, a, b, s, rfl, rfl, hs, hbound, hequal, hsolved⟩

/-- A unifier only speaks about variables of the two types. -/
theorem all_occurs_of_unify {a b : Ty} {s : Substitution} (h : unify .empty a b = .ok s) :
    s.All fun v => a.occurs v = true ∨ b.occurs v = true :=
  (Unified.of_unify h).all (Aliases.varFree_empty.all _) (fun _ => .inl) (fun _ => .inr)

/-- Whatever makes two types the same is a further instance of their unifier, and types
without a unifier have no common instance. -/
theorem unify_empty_most_general (a b : Ty) :
    (∀ θ : TypeVar → Ty, a.subst θ = b.subst θ →
      ∃ s, unify .empty a b = .ok s ∧ s.apply a = s.apply b ∧
        (∀ v t, s.get? v = some t → (a.occurs v = true ∨ b.occurs v = true) ∧
          ∀ w, t.occurs w = true → a.occurs w = true ∨ b.occurs w = true) ∧
        ∀ t : Ty, (s.apply t).subst θ = t.subst θ) ∧
    (∀ error, unify .empty a b = .error error →
      ¬ ∃ θ : TypeVar → Ty, a.subst θ = b.subst θ) := by
  have hexists : ∀ θ : TypeVar → Ty, a.subst θ = b.subst θ →
      ∃ s, unify .empty a b = .ok s ∧ s.SolvedBy (SameNormal .empty) θ :=
    fun θ h => exists_unify Aliases.varFree_empty Aliases.acyclic_empty h
  refine ⟨?_, ?_⟩
  · intro θ hθ
    obtain ⟨s, hok, hsolved⟩ := hexists θ hθ
    refine ⟨s, hok, apply_eq_of_unify hok, all_occurs_of_unify hok, ?_⟩
    intro t
    have hvalue := value_apply hsolved t
    rwa [value_empty, value_empty] at hvalue
  · rintro error herror ⟨θ, hθ⟩
    obtain ⟨s, hok, _⟩ := hexists θ hθ
    rw [herror] at hok
    cases hok

/-- The second equation decides what the first one binds, and a variable is no list of
itself. -/
theorem unify_empty_most_general_chain :
    (∃ s, unify .empty (.tuple [.var ⟨0, none⟩, .var ⟨1, none⟩])
        (.tuple [.list (.var ⟨1, none⟩), .con "Int"]) = .ok s ∧
      ∀ t : Ty, (s.apply t).subst (fun v => if v.id = 0 then .list (.con "Int") else .con "Int") =
        t.subst (fun v => if v.id = 0 then .list (.con "Int") else .con "Int")) ∧
    ¬ ∃ θ : TypeVar → Ty,
      (Ty.var ⟨0, none⟩).subst θ = (Ty.list (.var ⟨0, none⟩)).subst θ := by
  refine ⟨?_, (unify_empty_most_general _ _).2 _ rfl⟩
  obtain ⟨s, hok, _, _, happly⟩ := (unify_empty_most_general
    (.tuple [.var ⟨0, none⟩, .var ⟨1, none⟩]) (.tuple [.list (.var ⟨1, none⟩), .con "Int"])).1
    (fun v => if v.id = 0 then .list (.con "Int") else .con "Int") rfl
  exact ⟨s, hok, happly⟩

end Unification

end Rubric
