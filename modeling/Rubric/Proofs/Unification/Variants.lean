import Mathlib.Logic.Equiv.Basic
import Rubric.Proofs.Types.Renaming
import Rubric.Proofs.Types.Translation
import Rubric.Proofs.Unification.MostGeneral

/-!
# Most general solutions are variants

Two substitutions in solved form that solve each other say the same about every type, up
to the names of variables. A variable that one of them leaves free is a free variable for
the other one too, possibly a different one, and this correspondence goes both ways. It
extends to all variables by exchanging the two ends of each pair.
-/

namespace Rubric

namespace Substitution

variable {aliases : Aliases} {s s' : Substitution}

/-- Two substitutions in solved form that solve each other, up to aliases. -/
structure Variants (aliases : Aliases) (s s' : Substitution) : Prop where
  left : s.Idempotent
  right : s'.Idempotent
  solves : s.SolvedBy (Unification.SameNormal aliases) s'.image
  solved : s'.SolvedBy (Unification.SameNormal aliases) s.image

theorem Variants.symm (h : Variants aliases s s') : Variants aliases s' s :=
  ⟨h.right, h.left, h.solved, h.solves⟩

/-- The variable that a substitution gives to a variable. -/
def follow (s : Substitution) (v : TypeVar) : TypeVar :=
  match s.image v with
  | .var w => w
  | _ => v

theorem follow_of_image {v w : TypeVar} (h : s.image v = .var w) : s.follow v = w := by
  unfold follow
  rw [h]

/-- A variable that is free in one of two variants is a free variable of the other one, and
goes back to itself. -/
theorem Variants.follow_spec (hfree : aliases.VarFree) (h : Variants aliases s s') {v : TypeVar}
    (hv : s.get? v = none) :
    s'.image v = .var (s'.follow v) ∧ s'.get? (s'.follow v) = none ∧
      s.follow (s'.follow v) = v := by
  have hvalue : aliases.normal ((s'.image v).subst s.image) = .var v := by
    have happly := Unification.value_apply h.solved (.var v)
    rw [h.right.apply_eq] at happly
    unfold Aliases.value at happly
    rw [Ty.subst, Ty.subst, image_of_free hv, Aliases.normal_var] at happly
    exact happly
  have hvar : ((s'.image v).subst s.image).isVar = true := by
    rw [← Aliases.isVar_normal hfree, hvalue]
    rfl
  have himage : (s'.image v).isVar = true := by
    by_contra hne
    rw [Ty.isVar_subst _ (Bool.eq_false_of_not_eq_true hne)] at hvar
    cases hvar
  obtain ⟨w, hw⟩ := Ty.isVar_iff.mp himage
  rw [follow_of_image hw]
  refine ⟨hw, ?_, ?_⟩
  · have hall := h.right.all_apply (.var v)
    rw [h.right.apply_eq, Ty.subst, hw] at hall
    exact Ty.all_var.mp hall
  · obtain ⟨x, hx⟩ := Ty.isVar_iff.mp hvar
    rw [hx, Aliases.normal_var] at hvalue
    cases hvalue
    rw [hw, Ty.subst] at hx
    exact follow_of_image hx

/-- Exchange the free variables of two variants. -/
def exchange (s s' : Substitution) (v : TypeVar) : TypeVar :=
  if (s.get? v).isNone then s'.follow v
  else if (s'.get? v).isNone then s.follow v
  else v

theorem exchange_of_free {v : TypeVar} (h : s.get? v = none) : exchange s s' v = s'.follow v := by
  simp [exchange, h]

theorem exchange_of_bound {v : TypeVar} (h : s.get? v ≠ none) (h' : s'.get? v = none) :
    exchange s s' v = s.follow v := by
  simp [exchange, h, h']

theorem Variants.follow_of_free_both (hfree : aliases.VarFree) (h : Variants aliases s s')
    {v : TypeVar} (hv : s.get? v = none) (hv' : s.get? (s'.follow v) = none) :
    s'.follow v = v := by
  obtain ⟨_, _, hback⟩ := h.follow_spec hfree hv
  rw [← follow_of_image (image_of_free hv'), hback]

theorem Variants.involutive_exchange (hfree : aliases.VarFree) (h : Variants aliases s s') :
    Function.Involutive (exchange s s') := by
  intro v
  by_cases hv : s.get? v = none
  · obtain ⟨_, hfree', hback⟩ := h.follow_spec hfree hv
    rw [exchange_of_free hv]
    by_cases hw : s.get? (s'.follow v) = none
    · have hself := h.follow_of_free_both hfree hv hw
      rw [hself, exchange_of_free hv, hself]
    · rw [exchange_of_bound hw hfree', hback]
  · by_cases hv' : s'.get? v = none
    · obtain ⟨_, hfree', hback⟩ := h.symm.follow_spec hfree hv'
      rw [exchange_of_bound hv hv', exchange_of_free hfree', hback]
    · have hself : exchange s s' v = v := by simp [exchange, hv, hv']
      rw [hself, hself]

/-- Two variants resolve every type to the same type up to one renaming of variables and up
to aliases. -/
theorem Variants.exists_renaming (hfree : aliases.VarFree) (h : Variants aliases s s') :
    ∃ ρ : Equiv.Perm TypeVar, ∀ t,
      aliases.normal ((s.apply t).rename ρ) = aliases.normal (s'.apply t) := by
  refine ⟨(h.involutive_exchange hfree).toPerm, ?_⟩
  intro t
  have hrename : (s.apply t).rename (exchange s s') = (s.apply t).subst s'.image := by
    apply Ty.subst_congr
    intro v hv
    have hunbound := h.left.all_apply t v hv
    rw [exchange_of_free hunbound, (h.follow_spec hfree hunbound).1]
  calc
    aliases.normal ((s.apply t).rename (exchange s s'))
        = aliases.value s'.image (s.apply t) := by rw [hrename]; rfl
    _ = aliases.value s'.image t := Unification.value_apply h.solves t
    _ = aliases.normal (s'.apply t) := by rw [h.right.apply_eq]; rfl

end Substitution

end Rubric
