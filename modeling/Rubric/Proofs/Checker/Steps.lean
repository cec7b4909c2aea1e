import Mathlib.Logic.Relation
import Rubric.Proofs.Checker.Equations
import Rubric.Proofs.Checker.Lowering

/-!
# Steps of a session

Whatever the checker does to a session is a sequence of four kinds of steps: it takes
variable numbers, it takes one for a numeric literal, it accepts an equation between types
over the numbers taken so far, or it changes the names in scope. A tidy session stays
tidy under these steps, and a solution of the later session solves the earlier one.
-/

namespace Rubric

namespace Aliases

/-- Expansion does not turn a type into a variable. -/
theorem isVar_expandWithin (steps : Nat) {aliases : Aliases} (hfree : aliases.VarFree) {t : Ty}
    (h : t.isVar = false) : (expandWithin steps aliases t).isVar = false := by
  induction steps generalizing aliases t with
  | zero => exact h
  | succ steps ih =>
      unfold expandWithin
      cases hunfold : aliases.unfoldHead t with
      | none => exact h
      | some found =>
          obtain ⟨name, t'⟩ := found
          apply ih (All.erase hfree name)
          obtain ⟨body, hbody, ⟨_, rfl⟩ | ⟨args, _, rfl⟩⟩ := unfoldHead_cases hunfold
          · by_contra hvar
            obtain ⟨v, rfl⟩ := Ty.isVar_iff.mp (Bool.eq_true_of_not_eq_false hvar)
            exact hfree name _ hbody v (by simp)
          · rfl

theorem eq_var_of_expand {aliases : Aliases} (hfree : aliases.VarFree) {t : Ty} {v : TypeVar}
    (h : aliases.expand t = .var v) : ∃ w, t = .var w := by
  rw [← Ty.isVar_iff]
  by_contra hvar
  have hexpand := isVar_expandWithin aliases.table.size hfree (Bool.eq_false_of_not_eq_true hvar)
  rw [show expandWithin aliases.table.size aliases t = .var v from h] at hexpand
  cases hexpand

theorem expand_app (aliases : Aliases) (base : Ty) (args : List Ty) :
    ∃ base', aliases.expand (.app base args) = .app base' args := by
  have hwithin : ∀ steps (left : Aliases) base,
      ∃ base', expandWithin steps left (.app base args) = .app base' args := by
    intro steps
    induction steps with
    | zero => exact fun _ base => ⟨base, rfl⟩
    | succ steps ih =>
        intro left base
        unfold expandWithin
        cases hhead : left.unfoldHead (.app base args) with
        | none => exact ⟨base, rfl⟩
        | some found =>
            obtain ⟨name, t⟩ := found
            obtain ⟨body, _, ⟨heq, _⟩ | ⟨args', heq, rfl⟩⟩ := unfoldHead_cases hhead
            · cases heq
            · cases heq
              exact ih _ body
  exact hwithin _ _ _

end Aliases

namespace Session

/-- The invariant of checking. -/
structure Tidy (aliases : Aliases) (session : Session) : Prop where
  solved : session.subst.Idempotent
  subst : session.subst.All fun v => v.id < session.next
  numeric : ∀ v ∈ session.numeric, v.id < session.next
  kinds : ∀ v ∈ session.numeric, mayBeNumeric aliases (session.subst.apply (.var v)) = true
  scopes : ∀ name t, session.scopes.lookup name = some t → t.Below session.next

/-- A session without equations and names is tidy. -/
theorem tidy_start (aliases : Aliases) (session : Session) (next : Nat) :
    Tidy aliases { session.reset with scopes := .empty, next } := by
  refine ⟨Substitution.idempotent_empty, Substitution.all_empty _, ?_, ?_, ?_⟩
  · simp [reset]
  · simp [reset]
  · intro name t ht
    simp at ht

namespace Tidy

variable {aliases : Aliases} {session : Session}

/-- Only variables that have been taken are bound. -/
theorem unbound (h : session.Tidy aliases) {v : TypeVar} (hv : session.next ≤ v.id) :
    session.subst.get? v = none := by
  by_contra hbound
  obtain ⟨t, ht⟩ := Option.ne_none_iff_exists'.mp hbound
  exact Nat.not_lt.mpr hv (h.subst v t ht).1

/-- A type is resolved once and for all. -/
theorem apply_apply (h : session.Tidy aliases) (t : Ty) :
    session.subst.apply (session.subst.apply t) = session.subst.apply t :=
  Substitution.apply_of_free (h.solved.all_apply t)

theorem below_image (h : session.Tidy aliases) {v : TypeVar} (hv : v.id < session.next) :
    (session.subst.image v).Below session.next := by
  cases hget : session.subst.get? v with
  | none =>
      rw [Substitution.image_of_free hget]
      exact Ty.all_var.mpr hv
  | some t =>
      rw [Substitution.image_of_bound hget]
      exact (h.subst v t hget).2

theorem advance (h : session.Tidy aliases) {next : Nat} (hle : session.next ≤ next) :
    Tidy aliases { session with next } :=
  ⟨h.solved, h.subst.mono fun _ hv => Nat.lt_of_lt_of_le hv hle,
    fun v hv => Nat.lt_of_lt_of_le (h.numeric v hv) hle, h.kinds,
    fun name t ht => (h.scopes name t ht).of_le hle⟩

end Tidy

/-- What can happen to a session at a time. -/
inductive Step (aliases : Aliases) : Session → Session → Prop where
  | advance {session : Session} {next : Nat} : session.next ≤ next →
      Step aliases session { session with next }
  | literal (session : Session) : Step aliases session { session with
      next := session.next + 1, numeric := ⟨session.next, none⟩ :: session.numeric }
  | accept {session : Session} {literals : Arrangement TypeVar} {expected found : Ty}
      {subst : Substitution} : expected.Below session.next → found.Below session.next →
      session.equate aliases literals expected found = .ok subst →
      Step aliases session { session with subst }
  | rescope {session : Session} {scopes : Scopes} :
      (∀ name t, scopes.lookup name = some t → t.Below session.next) →
      Step aliases session { session with scopes }

/-- A valuation solves the equations of a session and gives its numeric literals types of
numbers. -/
structure Solves (aliases : Aliases) (σ : TypeVar → Ty) (session : Session) : Prop where
  subst : session.subst.SolvedBy aliases.Equal σ
  numeric : ∀ v ∈ session.numeric, (Discipline.lenient aliases).number (σ v)

variable {aliases : Aliases} {before after : Session}

/-- A type that may be numeric once its variables have been replaced may be so before. -/
theorem mayBeNumeric_of_subst {t : Ty} {θ : TypeVar → Ty}
    (h : mayBeNumeric aliases (t.subst θ) = true) : mayBeNumeric aliases t = true := by
  unfold mayBeNumeric at h ⊢
  cases t with
  | var v => rw [Aliases.expand_of_unfoldHead rfl]
  | con name => exact h
  | app base args =>
      obtain ⟨base', hexpand⟩ := aliases.expand_app (base.subst θ) (Ty.substAll θ args)
      rw [Ty.subst, hexpand] at h
      cases h
  | func input output | list element | tuple elements =>
      rw [Ty.subst, Aliases.expand_of_unfoldHead rfl] at h
      cases h

namespace Step

theorem next_le (h : Step aliases before after) : before.next ≤ after.next := by
  cases h with
  | advance hle => exact hle
  | literal => exact Nat.le_succ _
  | accept => exact Nat.le_refl _
  | rescope => exact Nat.le_refl _

theorem tidy (hfree : aliases.VarFree) (h : Step aliases before after)
    (htidy : before.Tidy aliases) : after.Tidy aliases := by
  cases h with
  | advance hle => exact htidy.advance hle
  | literal =>
      refine ⟨htidy.solved, htidy.subst.mono fun v hv => Nat.lt_succ_of_lt hv, ?_, ?_,
        fun name t ht => (htidy.scopes name t ht).of_le (Nat.le_succ _)⟩
      · rw [List.forall_mem_cons]
        exact ⟨Nat.lt_succ_self _, fun v hv => Nat.lt_succ_of_lt (htidy.numeric v hv)⟩
      · rw [List.forall_mem_cons]
        refine ⟨?_, htidy.kinds⟩
        have happly : before.subst.apply (.var ⟨before.next, none⟩) = .var ⟨before.next, none⟩ :=
          Substitution.chase_of_free (htidy.unbound (Nat.le_refl _)) _
        have hexpand : aliases.expand (.var ⟨before.next, none⟩) = .var ⟨before.next, none⟩ :=
          Aliases.expand_of_unfoldHead rfl
        rw [happly, mayBeNumeric, hexpand]
  | accept hexpected hfound hequate =>
      have hsolved := idempotent_of_equate hfree htidy.solved hequate
      obtain ⟨solution, hunify, rfl, hkinds⟩ := equate_eq_ok.mp hequate
      refine ⟨hsolved, htidy.subst.compose ?_, htidy.numeric, hkinds, htidy.scopes⟩
      exact (Unification.Unified.of_unify hunify).all (hfree.all _)
        (htidy.subst.apply hexpected) (htidy.subst.apply hfound)
  | rescope hscopes => exact ⟨htidy.solved, htidy.subst, htidy.numeric, htidy.kinds, hscopes⟩

theorem solves (hfree : aliases.VarFree) (h : Step aliases before after)
    (htidy : before.Tidy aliases) {σ : TypeVar → Ty} (hσ : after.Solves aliases σ) :
    before.Solves aliases σ := by
  cases h with
  | advance => exact ⟨hσ.subst, hσ.numeric⟩
  | literal => exact ⟨hσ.subst, fun v hv => hσ.numeric v (List.mem_cons_of_mem _ hv)⟩
  | accept _ _ hequate =>
      exact ⟨(solvedBy_of_equate hfree htidy.solved hequate hσ.subst).1, hσ.numeric⟩
  | rescope => exact ⟨hσ.subst, hσ.numeric⟩

end Step

/-- A session turns into another by steps. -/
def Reaches (aliases : Aliases) : Session → Session → Prop :=
  Relation.ReflTransGen (Step aliases)

namespace Reaches

theorem refl (session : Session) : Reaches aliases session session :=
  Relation.ReflTransGen.refl

theorem trans {middle : Session} (h : Reaches aliases before middle)
    (h' : Reaches aliases middle after) : Reaches aliases before after :=
  Relation.ReflTransGen.trans h h'

theorem step (h : Step aliases before after) : Reaches aliases before after :=
  Relation.ReflTransGen.single h

theorem next_le (h : Reaches aliases before after) : before.next ≤ after.next := by
  induction h with
  | refl => exact Nat.le_refl _
  | tail _ hstep ih => exact Nat.le_trans ih hstep.next_le

theorem tidy (hfree : aliases.VarFree) (h : Reaches aliases before after)
    (htidy : before.Tidy aliases) : after.Tidy aliases := by
  induction h with
  | refl => exact htidy
  | tail _ hstep ih => exact hstep.tidy hfree ih

theorem solves (hfree : aliases.VarFree) (h : Reaches aliases before after)
    (htidy : before.Tidy aliases) {σ : TypeVar → Ty} (hσ : after.Solves aliases σ) :
    before.Solves aliases σ := by
  induction h with
  | refl => exact hσ
  | tail hreaches hstep ih => exact ih (hstep.solves hfree (tidy hfree hreaches htidy) hσ)

end Reaches

/-- A tidy session is solved by its own substitution. -/
theorem Tidy.solves_image {session : Session} (hfree : aliases.VarFree)
    (h : session.Tidy aliases) : session.Solves aliases session.subst.image := by
  refine ⟨h.solved.solvedBy_image (Aliases.Equal.congruence aliases), ?_⟩
  intro v hv
  have hkind := h.kinds v hv
  rw [h.solved.apply_eq] at hkind
  change mayBeNumeric aliases (session.subst.image v) = true at hkind
  unfold mayBeNumeric at hkind
  split at hkind
  · next hexpand => exact .inl (Aliases.eq_var_of_expand hfree hexpand)
  · next kind hexpand => exact .inr ⟨kind, of_decide_eq_true hkind, hexpand⟩
  · cases hkind

end Session

end Rubric
