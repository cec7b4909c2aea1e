import Rubric.Proofs.Data.Rank
import Rubric.Proofs.Types.Equality
import Rubric.Typing.Substitution

/-!
# Resolving variables

A substitution in solved form binds no variable that occurs in one of its own bindings.
Applying it is one simultaneous replacement, and composing two of them is replacing one
after the other, as long as the second does not speak about what the first has bound.

A substitution without cycles need not be in solved form. Chasing its bindings still
comes to an end, and the number of bindings bounds the length of every chain.
-/

namespace Rubric

namespace Table

variable {κ α β : Type} [DecidableEq κ]

theorem mapValues_orElse (f : α → β) (table other : Table κ α) :
    (table.orElse other).mapValues f = (table.mapValues f).orElse (other.mapValues f) := by
  have hcontains : ∀ key, (table.mapValues f).contains key = table.contains key := by
    intro key
    simp [contains]
  simp only [orElse, hcontains]
  simp only [mapValues, List.map_append, List.filter_map, Function.comp_def]

theorem orElse_assoc (first second third : Table κ α) :
    (first.orElse second).orElse third = first.orElse (second.orElse third) := by
  have hcontains : ∀ key,
      (!(first.orElse second).contains key) = (!first.contains key && !second.contains key) := by
    intro key
    simp [contains]
  unfold orElse at hcontains ⊢
  simp only [hcontains, List.filter_append, List.filter_filter, List.append_assoc]

end Table

namespace Substitution

/-- The type that a variable is replaced by; a free variable stays. -/
def image (s : Substitution) (v : TypeVar) : Ty :=
  (s.get? v).getD (.var v)

/-- No bound variable occurs in a bound type. -/
def Idempotent (s : Substitution) : Prop :=
  ∀ v t, s.get? v = some t → t.All fun w => s.get? w = none

/-- Every variable of a substitution, bound or inside a bound type, has a property. -/
def All (p : TypeVar → Prop) (s : Substitution) : Prop :=
  ∀ v t, s.get? v = some t → p v ∧ t.All p

theorem image_of_bound {s : Substitution} {v : TypeVar} {t : Ty} (h : s.get? v = some t) :
    s.image v = t := by
  simp [image, h]

theorem image_of_free {s : Substitution} {v : TypeVar} (h : s.get? v = none) :
    s.image v = .var v := by
  simp [image, h]

theorem chase_of_free {s : Substitution} {v : TypeVar} (h : s.get? v = none) (links : Nat) :
    s.chase links v = .var v := by
  cases links with
  | zero => rfl
  | succ links => simp [chase, h]

theorem get?_of_size_zero {s : Substitution} (h : s.size = 0) (v : TypeVar) :
    s.get? v = none := by
  have hentries : s.bindings.entries = [] := List.length_eq_zero_iff.mp h
  simp [get?, Table.get?, hentries]

theorem apply_of_free {s : Substitution} {t : Ty}
    (h : ∀ v, t.occurs v = true → s.get? v = none) : s.apply t = t :=
  Ty.subst_eq_self fun v hv => chase_of_free (h v hv) _

@[simp] theorem apply_empty (t : Ty) : empty.apply t = t :=
  apply_of_free fun v _ => get?_empty v

@[simp] theorem empty_compose (s : Substitution) : empty.compose s = s := by
  simp [compose, empty, Table.empty, Table.mapValues, Table.orElse, Table.contains, Table.get?]

/-! ## Variables -/

theorem all_empty (p : TypeVar → Prop) : empty.All p := by
  intro v t h
  simp at h

theorem All.mono {p q : TypeVar → Prop} {s : Substitution} (h : s.All p)
    (himp : ∀ v, p v → q v) : s.All q :=
  fun v t hv => ⟨himp v (h v t hv).1, (h v t hv).2.mono himp⟩

theorem all_singleton {p : TypeVar → Prop} {v : TypeVar} {t : Ty} (hv : p v) (ht : t.All p) :
    (singleton v t).All p := by
  intro w u h
  rw [get?_singleton] at h
  split at h
  · next heq =>
      cases h
      exact ⟨heq ▸ hv, ht⟩
  · cases h

theorem All.chase {p : TypeVar → Prop} {s : Substitution} (hs : s.All p) (links : Nat)
    {v : TypeVar} (hv : p v) : (s.chase links v).All p := by
  induction links generalizing v with
  | zero => exact Ty.all_var.mpr hv
  | succ links ih =>
      unfold Substitution.chase
      cases h : s.get? v with
      | none => exact Ty.all_var.mpr hv
      | some t => exact Ty.all_subst_iff.mpr fun w hw => ih ((hs v t h).2 w hw)

theorem All.apply {p : TypeVar → Prop} {s : Substitution} (hs : s.All p) {t : Ty}
    (ht : t.All p) : (s.apply t).All p :=
  Ty.all_subst_iff.mpr fun v hv => hs.chase s.size (ht v hv)

theorem All.compose {p : TypeVar → Prop} {first second : Substitution} (hfirst : first.All p)
    (hsecond : second.All p) : (first.compose second).All p := by
  intro v t h
  rw [get?_compose] at h
  cases hv : first.get? v with
  | none =>
      rw [hv] at h
      exact hsecond v t h
  | some u =>
      rw [hv] at h
      cases h
      exact ⟨(hfirst v u hv).1, hsecond.apply (hfirst v u hv).2⟩

/-! ## Solved forms -/

theorem idempotent_empty : empty.Idempotent := by
  intro v t h
  simp at h

theorem idempotent_singleton {v : TypeVar} {t : Ty} (h : t.occurs v = false) :
    (singleton v t).Idempotent := by
  intro w u hw
  rw [get?_singleton] at hw
  split at hw
  · cases hw
    intro x hx
    rw [get?_singleton, if_neg]
    rintro rfl
    simp [h] at hx
  · cases hw

theorem apply_singleton_of_not_occurs {v : TypeVar} {t u : Ty} (h : u.occurs v = false) :
    (singleton v t).apply u = u := by
  apply apply_of_free
  intro w hw
  rw [get?_singleton, if_neg]
  rintro rfl
  simp [h] at hw

/-- Applying a substitution in solved form replaces every variable once. -/
theorem Idempotent.apply_eq {s : Substitution} (h : s.Idempotent) (t : Ty) :
    s.apply t = t.subst s.image := by
  apply Ty.subst_congr
  intro v _
  cases hv : s.get? v with
  | none => rw [chase_of_free hv, image_of_free hv]
  | some u =>
      cases hsize : s.size with
      | zero => simp [get?_of_size_zero hsize] at hv
      | succ links =>
          rw [image_of_bound hv]
          simp only [chase, hv]
          exact Ty.subst_eq_self fun w hw => chase_of_free (h v u hv w hw) links

theorem apply_singleton_self {v : TypeVar} {t : Ty} (h : t.occurs v = false) :
    (singleton v t).apply (.var v) = t := by
  rw [(idempotent_singleton h).apply_eq, Ty.subst]
  exact image_of_bound (by rw [get?_singleton, if_pos rfl])

theorem Idempotent.image_subst {s : Substitution} (h : s.Idempotent) (v : TypeVar) :
    (s.image v).subst s.image = s.image v := by
  cases hv : s.get? v with
  | none => simp [image_of_free hv]
  | some t =>
      rw [image_of_bound hv]
      exact Ty.subst_eq_self fun w hw => image_of_free (h v t hv w hw)

/-- A resolved type has no bound variables. -/
theorem Idempotent.all_apply {s : Substitution} (h : s.Idempotent) (t : Ty) :
    (s.apply t).All fun w => s.get? w = none := by
  rw [h.apply_eq, Ty.all_subst_iff]
  intro v _
  cases hv : s.get? v with
  | none => simp [image_of_free hv, hv]
  | some u =>
      rw [image_of_bound hv]
      exact h v u hv

section Compose

variable {first second : Substitution}

theorem compose_of_bound {v : TypeVar} {t : Ty} (h : first.get? v = some t) :
    (first.compose second).get? v = some (second.apply t) := by
  simp [get?_compose, h]

theorem compose_of_free {v : TypeVar} (h : first.get? v = none) :
    (first.compose second).get? v = second.get? v := by
  simp [get?_compose, h]

theorem compose_get?_none {v : TypeVar} :
    (first.compose second).get? v = none ↔ first.get? v = none ∧ second.get? v = none := by
  rw [get?_compose]
  cases first.get? v <;> simp

theorem image_compose (hsecond : second.Idempotent) (v : TypeVar) :
    (first.compose second).image v = (first.image v).subst second.image := by
  cases hv : first.get? v with
  | none =>
      rw [image_of_free hv]
      simp [image, compose_of_free hv]
  | some t =>
      rw [image_of_bound (compose_of_bound hv), image_of_bound hv, hsecond.apply_eq]

/-- A composition is in solved form when the second substitution does not speak about
variables that the first has bound. -/
theorem Idempotent.compose (hfirst : first.Idempotent) (hsecond : second.Idempotent)
    (hfree : second.All fun v => first.get? v = none) : (first.compose second).Idempotent := by
  intro v t h
  simp only [compose_get?_none]
  cases hv : first.get? v with
  | none =>
      rw [compose_of_free hv] at h
      exact fun w hw => ⟨(hfree v t h).2 w hw, hsecond v t h w hw⟩
  | some u =>
      rw [compose_of_bound hv] at h
      cases h
      exact fun w hw => ⟨hfree.apply (hfirst v u hv) w hw, hsecond.all_apply u w hw⟩

theorem apply_compose (hfirst : first.Idempotent) (hsecond : second.Idempotent)
    (hfree : second.All fun v => first.get? v = none) (t : Ty) :
    (first.compose second).apply t = second.apply (first.apply t) := by
  rw [(hfirst.compose hsecond hfree).apply_eq, hsecond.apply_eq, hfirst.apply_eq, Ty.subst_subst]
  exact Ty.subst_congr fun v _ => image_compose hsecond v

theorem compose_assoc {third : Substitution}
    (happly : ∀ t, (second.compose third).apply t = third.apply (second.apply t)) :
    (first.compose second).compose third = first.compose (second.compose third) := by
  have hvalues : (first.bindings.mapValues second.apply).mapValues third.apply =
      first.bindings.mapValues (second.compose third).apply := by
    simp [Table.mapValues, happly]
  unfold compose at hvalues ⊢
  dsimp only
  rw [Table.mapValues_orElse, Table.orElse_assoc, hvalues]

end Compose

/-! ## Solutions

A valuation solves a substitution when it gives every bound variable the same type, up
to a given equality, as what the variable is bound to.
-/

/-- The valuation gives equal types to a bound variable and to what it is bound to. -/
def SolvedBy (s : Substitution) (equal : Ty → Ty → Prop) (θ : TypeVar → Ty) : Prop :=
  ∀ v t, s.get? v = some t → equal (t.subst θ) (θ v)

section SolvedBy

variable {equal : Ty → Ty → Prop} {θ : TypeVar → Ty}

theorem solvedBy_empty : empty.SolvedBy equal θ := by
  intro v t h
  simp at h

theorem solvedBy_singleton {v : TypeVar} {t : Ty} (h : equal (t.subst θ) (θ v)) :
    (singleton v t).SolvedBy equal θ := by
  intro w u hw
  rw [get?_singleton] at hw
  split at hw
  · next heq =>
      cases hw
      exact heq ▸ h
  · cases hw

/-- A substitution in solved form is solved by itself. -/
theorem Idempotent.solvedBy_image {s : Substitution} (h : s.Idempotent)
    (hc : Ty.Congruence equal) : s.SolvedBy equal s.image := by
  intro v t hv
  have himage := h.image_subst v
  rw [image_of_bound hv] at himage
  rw [himage, image_of_bound hv]
  exact hc.refl t

/-- A solution does not see whether a type was resolved before. -/
theorem SolvedBy.apply {s : Substitution} (h : s.SolvedBy equal θ) (hc : Ty.Congruence equal)
    (t : Ty) : equal ((s.apply t).subst θ) (t.subst θ) := by
  have hchase : ∀ links v, equal ((s.chase links v).subst θ) (θ v) := by
    intro links
    induction links with
    | zero => exact fun v => hc.refl _
    | succ links ih =>
        intro v
        unfold chase
        cases hv : s.get? v with
        | none => exact hc.refl _
        | some u =>
            simp only [Ty.subst_subst]
            exact hc.trans (hc.subst fun w _ => ih w) (h v u hv)
  unfold Substitution.apply
  rw [Ty.subst_subst]
  exact hc.subst fun v _ => hchase s.size v

theorem SolvedBy.compose {first second : Substitution} (hfirst : first.SolvedBy equal θ)
    (hsecond : second.SolvedBy equal θ) (hc : Ty.Congruence equal) :
    (first.compose second).SolvedBy equal θ := by
  intro v t h
  cases hv : first.get? v with
  | none =>
      rw [compose_of_free hv] at h
      exact hsecond v t h
  | some u =>
      rw [compose_of_bound hv] at h
      cases h
      exact hc.trans (hsecond.apply hc u) (hfirst v u hv)

/-- A solution of a composition solves the second part, which speaks about variables
that the first part leaves free. -/
theorem SolvedBy.second {first second : Substitution}
    (h : (first.compose second).SolvedBy equal θ)
    (hfree : second.All fun v => first.get? v = none) : second.SolvedBy equal θ := by
  intro v t hv
  apply h v t
  rw [compose_of_free (hfree v t hv).1, hv]

theorem SolvedBy.first {first second : Substitution}
    (h : (first.compose second).SolvedBy equal θ) (hc : Ty.Congruence equal)
    (hfree : second.All fun v => first.get? v = none) : first.SolvedBy equal θ := by
  intro v t hv
  exact hc.trans (hc.symm ((h.second hfree).apply hc t)) (h v _ (compose_of_bound hv))

end SolvedBy

end Substitution

end Rubric
