import Rubric.Proofs.Types.Resolution

/-!
# Chains of bindings

A bound type may mention variables that are bound in turn. A substitution is acyclic when
no such chain comes back to the variable it started from. Acyclic substitutions are the
ones that can be applied to the end: every type has a finite resolution, and it is the
one that chasing as many links as there are bindings finds.
-/

namespace Rubric

namespace Substitution

/-- The binding of one variable mentions another. -/
def Follows (s : Substitution) (v w : TypeVar) : Prop :=
  ∃ t, s.get? v = some t ∧ t.occurs w = true

/-- No chain of bindings comes back to where it started. -/
def Acyclic (s : Substitution) : Prop :=
  ∀ v, ¬ Relation.TransGen s.Follows v v

mutual

/-- A type is resolved by replacing its bound variables, and those of what replaces them,
until none is left. A derivation is a run of this process that ends. -/
inductive Resolves (s : Substitution) : Ty → Ty → Prop where
  | free {v : TypeVar} : s.get? v = none → Resolves s (.var v) (.var v)
  | bound {v : TypeVar} {t u : Ty} : s.get? v = some t → Resolves s t u →
      Resolves s (.var v) u
  | con (name : String) : Resolves s (.con name) (.con name)
  | app {base base' : Ty} {args args' : List Ty} : Resolves s base base' →
      ResolvesAll s args args' → Resolves s (.app base args) (.app base' args')
  | func {a a' b b' : Ty} : Resolves s a a' → Resolves s b b' →
      Resolves s (.func a b) (.func a' b')
  | list {t t' : Ty} : Resolves s t t' → Resolves s (.list t) (.list t')
  | tuple {ts ts' : List Ty} : ResolvesAll s ts ts' → Resolves s (.tuple ts) (.tuple ts')

/-- Several types are resolved one after the other. -/
inductive ResolvesAll (s : Substitution) : List Ty → List Ty → Prop where
  | nil : ResolvesAll s [] []
  | cons {t t' : Ty} {ts ts' : List Ty} : Resolves s t t' → ResolvesAll s ts ts' →
      ResolvesAll s (t :: ts) (t' :: ts')

end

variable {s : Substitution}

/-! ## Acyclic substitutions resolve every type -/

theorem ResolvesAll.map {f g : Ty → Ty} {ts : List Ty} (h : ∀ t ∈ ts, s.Resolves (f t) (g t)) :
    s.ResolvesAll (ts.map f) (ts.map g) := by
  induction ts with
  | nil => exact .nil
  | cons t ts ih =>
      rw [List.forall_mem_cons] at h
      exact .cons h.1 (ih h.2)

/-- What stands for the variables of a type is resolved part by part. -/
theorem Resolves.subst {f g : TypeVar → Ty} {t : Ty}
    (h : ∀ v, t.occurs v = true → s.Resolves (f v) (g v)) :
    s.Resolves (t.subst f) (t.subst g) := by
  induction t with
  | var v => exact h v (by simp)
  | con name => exact .con name
  | app base args ihbase ihargs =>
      simp only [Ty.subst, Ty.substAll_eq_map]
      refine .app (ihbase fun v hv => h v (by simp [hv])) (.map ?_)
      intro t ht
      refine ihargs t ht fun v hv => h v ?_
      simp only [Ty.occurs, Bool.or_eq_true, Ty.occursAny_iff]
      exact .inr ⟨t, ht, hv⟩
  | func input output ihinput ihoutput =>
      exact .func (ihinput fun v hv => h v (by simp [hv]))
        (ihoutput fun v hv => h v (by simp [hv]))
  | list element ih => exact .list (ih fun v hv => h v (by simpa using hv))
  | tuple elements ih =>
      simp only [Ty.subst, Ty.substAll_eq_map]
      refine .tuple (.map ?_)
      intro t ht
      refine ih t ht fun v hv => h v ?_
      simp only [Ty.occurs, Ty.occursAny_iff]
      exact ⟨t, ht, hv⟩

theorem Resolves.of_vars {f : TypeVar → Ty} {t : Ty}
    (h : ∀ v, t.occurs v = true → s.Resolves (.var v) (f v)) : s.Resolves t (t.subst f) := by
  have hsubst := Resolves.subst h
  rwa [Ty.subst_var] at hsubst

theorem Acyclic.resolves (h : s.Acyclic) (t : Ty) : s.Resolves t (s.apply t) := by
  obtain ⟨rank, hdown, hbound⟩ := exists_rank s.Follows s.bindings.keys h
  rw [Table.length_keys] at hbound
  -- A variable of some rank is resolved by chasing more links than its rank.
  have hchase : ∀ links v, (v ∈ s.bindings.keys → rank v < links) →
      s.Resolves (.var v) (s.chase links v) := by
    intro links
    induction links with
    | zero =>
        intro v hv
        have hfree : s.get? v = none := by
          by_contra hbound
          obtain ⟨u, hu⟩ := Option.ne_none_iff_exists'.mp hbound
          exact absurd (hv (Table.mem_keys_of_get? hu)) (Nat.not_lt_zero _)
        exact .free hfree
    | succ links ih =>
        intro v hv
        unfold chase
        cases hget : s.get? v with
        | none => exact .free hget
        | some u =>
            refine .bound hget (.of_vars ?_)
            intro w hw
            apply ih
            intro hkey
            have hlt := hdown v w ⟨u, hget, hw⟩ hkey
            have := hv (Table.mem_keys_of_get? hget)
            omega
  exact .of_vars fun v _ => hchase s.size v (hbound v)

/-! ## Only acyclic substitutions do -/

mutual

/-- Chains from the variables of a type that can be resolved come to an end. -/
theorem Resolves.acc : {t u : Ty} → s.Resolves t u → ∀ v, t.occurs v = true →
    Acc (fun w v => s.Follows v w) v
  | _, _, @Resolves.free _ v hfree, w, hw => by
      simp only [Ty.occurs, decide_eq_true_eq] at hw
      subst hw
      refine .intro _ ?_
      rintro x ⟨t, ht, _⟩
      rw [hfree] at ht
      cases ht
  | _, _, @Resolves.bound _ v t u hget h, w, hw => by
      simp only [Ty.occurs, decide_eq_true_eq] at hw
      subst hw
      refine .intro _ ?_
      rintro x ⟨t', ht', hx⟩
      rw [hget] at ht'
      cases ht'
      exact h.acc x hx
  | _, _, .con name, w, hw => by simp at hw
  | _, _, .app hbase hargs, w, hw => by
      rw [Ty.occurs, Bool.or_eq_true] at hw
      exact hw.elim (hbase.acc w) (hargs.acc w)
  | _, _, .func ha hb, w, hw => by
      rw [Ty.occurs, Bool.or_eq_true] at hw
      exact hw.elim (ha.acc w) (hb.acc w)
  | _, _, .list h, w, hw => h.acc w (by simpa using hw)
  | _, _, .tuple h, w, hw => h.acc w (by simpa using hw)

theorem ResolvesAll.acc : {ts us : List Ty} → s.ResolvesAll ts us →
    ∀ v, Ty.occursAny v ts = true → Acc (fun w v => s.Follows v w) v
  | _, _, .nil, w, hw => by simp at hw
  | _, _, .cons h hrest, w, hw => by
      rw [Ty.occursAny, Bool.or_eq_true] at hw
      exact hw.elim (h.acc w) (hrest.acc w)

end

/-- A substitution is acyclic exactly when every type can be resolved in it. -/
theorem acyclic_iff_resolves : s.Acyclic ↔ ∀ t, ∃ u, s.Resolves t u := by
  refine ⟨fun h t => ⟨_, h.resolves t⟩, ?_⟩
  intro h v hcycle
  obtain ⟨u, hu⟩ := h (.var v)
  have hacc := hu.acc v (by simp)
  clear hu
  induction hacc with
  | intro v _ ih =>
      obtain ⟨w, hvw, hback⟩ := Relation.TransGen.head'_iff.mp hcycle
      exact ih w hvw (Relation.TransGen.tail' hback hvw)

/-- In a substitution in solved form every chain has one link. -/
theorem Idempotent.acyclic (h : s.Idempotent) : s.Acyclic := by
  intro v hcycle
  obtain ⟨w, ⟨t, ht, hw⟩, hback⟩ := Relation.TransGen.head'_iff.mp hcycle
  have hfree : s.get? w = none := h v t ht w hw
  rcases Relation.ReflTransGen.cases_head hback with rfl | ⟨x, ⟨u, hu, _⟩, _⟩
  · rw [hfree] at ht
    cases ht
  · rw [hfree] at hu
    cases hu

end Substitution

end Rubric
