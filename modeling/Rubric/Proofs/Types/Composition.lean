import Rubric.Proofs.Types.Chains

/-!
# Composing acyclic substitutions

In an acyclic substitution every type has exactly one resolution, and it is free of bound
variables, so resolving it once more changes nothing. Two acyclic substitutions can be composed
when the second does not speak about what the first binds: to resolve a type in the composition is
to resolve it in the first and then in the second, and hence the composition is acyclic as well.
-/

namespace Rubric

namespace Substitution

variable {s : Substitution}

/-! ## Resolutions -/

mutual

/-- A type has at most one resolution. -/
theorem Resolves.unique : {t u u' : Ty} → s.Resolves t u → s.Resolves t u' → u = u'
  | _, _, _, .free _, .free _ => rfl
  | _, _, _, .free hfree, .bound hbound _ => by
      rw [hfree] at hbound
      cases hbound
  | _, _, _, .bound hbound _, .free hfree => by
      rw [hfree] at hbound
      cases hbound
  | _, _, _, .bound hbound h, .bound hbound' h' => by
      rw [hbound] at hbound'
      cases hbound'
      exact h.unique h'
  | _, _, _, .con _, .con _ => rfl
  | _, _, _, .app hbase hargs, .app hbase' hargs' => by
      rw [hbase.unique hbase', hargs.unique hargs']
  | _, _, _, .func ha hb, .func ha' hb' => by rw [ha.unique ha', hb.unique hb']
  | _, _, _, .list h, .list h' => by rw [h.unique h']
  | _, _, _, .tuple h, .tuple h' => by rw [h.unique h']

theorem ResolvesAll.unique : {ts us us' : List Ty} → s.ResolvesAll ts us →
    s.ResolvesAll ts us' → us = us'
  | _, _, _, .nil, .nil => rfl
  | _, _, _, .cons h hrest, .cons h' hrest' => by rw [h.unique h', hrest.unique hrest']

end

/-- A type without bound variables is its own resolution. -/
theorem Resolves.refl {t : Ty} (h : t.All fun v => s.get? v = none) : s.Resolves t t := by
  have hvars : s.Resolves t (t.subst .var) := .of_vars fun v hv => .free (h v hv)
  rwa [Ty.subst_var] at hvars

/-- A substitution in which every binding goes to larger numbers is acyclic. -/
theorem acyclic_of_numbers (h : ∀ v t, s.get? v = some t → t.All fun w => v.id < w.id) :
    s.Acyclic := by
  intro v hcycle
  have hlt : ∀ w, Relation.TransGen s.Follows v w → v.id < w.id := by
    intro w hchain
    induction hchain with
    | single hlink =>
        obtain ⟨t, ht, hw⟩ := hlink
        exact h _ t ht _ hw
    | tail _ hlink ih =>
        obtain ⟨t, ht, hw⟩ := hlink
        exact Nat.lt_trans ih (h _ t ht _ hw)
  exact Nat.lt_irrefl _ (hlt v hcycle)

namespace Acyclic

variable (h : s.Acyclic)

include h

theorem resolves_iff {t u : Ty} : s.Resolves t u ↔ u = s.apply t := by
  constructor
  · exact fun hu => hu.unique (h.resolves t)
  · rintro rfl
    exact h.resolves t

theorem apply_of_bound {v : TypeVar} {t : Ty} (hv : s.get? v = some t) :
    s.apply (.var v) = s.apply t :=
  (h.resolves (.var v)).unique (.bound hv (h.resolves t))

/-- What holds for a variable once it holds for all that its binding mentions holds for all. -/
theorem induction {motive : TypeVar → Prop}
    (step : ∀ v, (∀ w, s.Follows v w → motive w) → motive v) (v : TypeVar) : motive v := by
  have hacc := (h.resolves (.var v)).acc v (by simp)
  induction hacc with
  | intro v _ ih => exact step v ih

/-- A resolved type has no bound variables. -/
theorem all_apply (t : Ty) : (s.apply t).All fun v => s.get? v = none := by
  have hvar : ∀ v, (s.apply (.var v)).All fun w => s.get? w = none := by
    refine h.induction fun v ih => ?_
    cases hv : s.get? v with
    | none =>
        rw [show s.apply (.var v) = .var v from chase_of_free hv _]
        exact Ty.all_var.mpr hv
    | some u =>
        rw [h.apply_of_bound hv]
        exact Ty.all_subst_iff.mpr fun w hw => ih w ⟨u, hv, hw⟩
  exact Ty.all_subst_iff.mpr fun v _ => hvar v

theorem apply_apply (t : Ty) : s.apply (s.apply t) = s.apply t :=
  apply_of_free (h.all_apply t)

end Acyclic

/-! ## Compositions -/

section Compose

variable {first second : Substitution} (hfirst : first.Acyclic) (hsecond : second.Acyclic)
  (hfree : second.All fun v => first.get? v = none)

include hsecond hfree

/-- What the first substitution leaves alone is resolved by the second. -/
theorem resolves_compose_of_free : ∀ v, first.get? v = none →
    (first.compose second).Resolves (.var v) (second.apply (.var v)) := by
  refine hsecond.induction fun v ih hv => ?_
  cases hv' : second.get? v with
  | none =>
      rw [show second.apply (.var v) = .var v from chase_of_free hv' _]
      exact .free (compose_get?_none.mpr ⟨hv, hv'⟩)
  | some t =>
      have hbound : (first.compose second).get? v = some t := (compose_of_free hv).trans hv'
      rw [hsecond.apply_of_bound hv']
      exact .bound hbound (.of_vars fun w hw => ih w ⟨t, hv', hw⟩ ((hfree v t hv').2 w hw))

include hfirst

/-- Resolving in a composition is resolving in the first substitution and then in the second. -/
theorem resolves_compose (t : Ty) :
    (first.compose second).Resolves t (second.apply (first.apply t)) := by
  have hvar : ∀ v, (first.compose second).Resolves (.var v)
      (second.apply (first.apply (.var v))) := by
    refine hfirst.induction fun v ih => ?_
    cases hv : first.get? v with
    | none =>
        rw [show first.apply (.var v) = .var v from chase_of_free hv _]
        exact resolves_compose_of_free hsecond hfree v hv
    | some u =>
        -- The composition binds the variable to what the second makes of the binding. A variable
        -- of the binding that the second replaces is free in the first and resolved by then.
        have hreplaced : ∀ w, u.occurs w = true → (first.compose second).Resolves
            (second.apply (.var w)) (second.apply (first.apply (.var w))) := by
          intro w hw
          cases hw' : second.get? w with
          | none =>
              rw [show second.apply (.var w) = .var w from chase_of_free hw' _]
              exact ih w ⟨u, hv, hw⟩
          | some u' =>
              have hwfree : first.get? w = none := (hfree w u' hw').1
              rw [show first.apply (.var w) = .var w from chase_of_free hwfree _]
              refine .refl fun x hx => compose_get?_none.mpr ⟨?_, hsecond.all_apply _ x hx⟩
              exact hfree.apply (Ty.all_var.mpr hwfree) x hx
        have hresolves := Resolves.subst hreplaced
        rw [hfirst.apply_of_bound hv]
        refine .bound (compose_of_bound hv) ?_
        unfold apply at hresolves ⊢
        rw [Ty.subst_subst]
        exact hresolves
  unfold apply
  rw [Ty.subst_subst]
  exact .of_vars fun v _ => hvar v

theorem Acyclic.compose : (first.compose second).Acyclic :=
  acyclic_iff_resolves.mpr fun t => ⟨_, resolves_compose hfirst hsecond hfree t⟩

end Compose

/-! ## The algebra of acyclic substitutions -/

/-- Applying an acyclic substitution comes to an end, with the only resolution there is: it has
no bound variables, and applying the substitution again does not change it. If the second of two
acyclic substitutions does not speak about what the first binds, then their composition is
acyclic, and applying it is applying the first and then the second. -/
theorem acyclic_algebra :
    (∀ s : Substitution, s.Acyclic → ∀ t, (∀ u, s.Resolves t u ↔ u = s.apply t) ∧
      ((s.apply t).All fun v => s.get? v = none) ∧ s.apply (s.apply t) = s.apply t) ∧
    ∀ first second : Substitution, first.Acyclic → second.Acyclic →
      (second.All fun v => first.get? v = none) → (first.compose second).Acyclic ∧
        ∀ t, (first.compose second).apply t = second.apply (first.apply t) := by
  refine ⟨?_, ?_⟩
  · exact fun s h t => ⟨fun u => h.resolves_iff, h.all_apply t, h.apply_apply t⟩
  · intro first second hfirst hsecond hfree
    have hcompose := hfirst.compose hsecond hfree
    refine ⟨hcompose, fun t => ?_⟩
    exact (hcompose.resolves_iff.mp (resolves_compose hfirst hsecond hfree t)).symm

/-! ## An example

Two substitutions with chains, of which the second goes on where the first ends. -/

namespace Linked

/-- The variable of a number. -/
def link (id : Nat) : TypeVar := ⟨id, none⟩

def first : Substitution :=
  (singleton (link 0) (.list (.var (link 1)))).insert (link 1) (.var (link 2))

def second : Substitution :=
  (singleton (link 2) (.list (.var (link 3)))).insert (link 3) (.con "Int")

/-- What holds for two bindings holds for all bindings of the substitution made of them. -/
theorem forall_pair {p : TypeVar → Ty → Prop} {v w : TypeVar} {t u : Ty} (hv : p v t)
    (hw : p w u) : ∀ x r, ((singleton v t).insert w u).get? x = some r → p x r := by
  intro x r hx
  rw [get?_insert, get?_singleton] at hx
  split at hx
  · next heq =>
      cases hx
      exact heq ▸ hw
  · split at hx
    · next heq =>
        cases hx
        exact heq ▸ hv
    · cases hx

theorem acyclic_first : first.Acyclic :=
  acyclic_of_numbers (forall_pair (Ty.all_list.mpr (Ty.all_var.mpr (by decide)))
    (Ty.all_var.mpr (by decide)))

theorem acyclic_second : second.Acyclic :=
  acyclic_of_numbers (forall_pair (Ty.all_list.mpr (Ty.all_var.mpr (by decide))) Ty.all_con)

theorem free_in_first : second.All fun v => first.get? v = none :=
  forall_pair ⟨by decide, Ty.all_list.mpr (Ty.all_var.mpr (by decide))⟩ ⟨by decide, Ty.all_con⟩

end Linked

/-- The composition follows the chains of both substitutions to their end. -/
theorem acyclic_algebra_linked :
    (Linked.first.compose Linked.second).Acyclic ∧
    (Linked.first.compose Linked.second).apply (.var (Linked.link 0)) =
      Linked.second.apply (Linked.first.apply (.var (Linked.link 0))) ∧
    Linked.first.apply (Linked.first.apply (.var (Linked.link 0))) =
      Linked.first.apply (.var (Linked.link 0)) ∧
    Linked.first.apply (.var (Linked.link 0)) = .list (.var (Linked.link 2)) ∧
    Linked.second.apply (.list (.var (Linked.link 2))) = .list (.list (.con "Int")) := by
  obtain ⟨hresolves, hcompose⟩ := acyclic_algebra
  obtain ⟨hacyclic, happly⟩ := hcompose Linked.first Linked.second Linked.acyclic_first
    Linked.acyclic_second Linked.free_in_first
  obtain ⟨_, _, htwice⟩ := hresolves Linked.first Linked.acyclic_first (.var (Linked.link 0))
  exact ⟨hacyclic, happly _, htwice, by decide, by decide⟩

/-- A second substitution that leads back to what the first binds closes a cycle. -/
example :
    ((singleton (Linked.link 0) (.var (Linked.link 1))).compose
      (singleton (Linked.link 1) (.var (Linked.link 0)))).get? (Linked.link 0) =
        some (.var (Linked.link 0)) := by
  decide

end Substitution

end Rubric
