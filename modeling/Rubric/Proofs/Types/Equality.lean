import Mathlib.Data.List.Forall2
import Rubric.Proofs.Types.Term
import Rubric.Typing.Alias

/-!
# Equalities of types

An equality of types relates types that are built in the same way from equal
components. The one that unification works with also identifies every alias name with
the type it stands for; it is the least such equality.
-/

namespace Rubric

namespace Ty

theorem sameHead_self {t : Ty} (hvar : t.isVar = false) (hcon : ∀ name, t ≠ con name) :
    t.sameHead t = true := by
  cases t with
  | var v => simp [isVar] at hvar
  | con name => exact (hcon name rfl).elim
  | app base args => simp [sameHead]
  | func input output => rfl
  | list element => rfl
  | tuple elements => simp [sameHead]

theorem sameHead_subst {a b : Ty} (h : a.sameHead b = true) (f g : TypeVar → Ty) :
    (a.subst f).sameHead (b.subst g) = true := by
  cases a <;> cases b <;> simp_all [sameHead]

theorem isVar_of_sameHead {a b : Ty} (h : a.sameHead b = true) :
    a.isVar = false ∧ b.isVar = false := by
  cases a <;> cases b <;> simp_all [sameHead, isVar]

theorem sameHead_of_sameHead {a b c : Ty} (ha : a.sameHead c = true) (hb : b.sameHead c = true) :
    a.sameHead b = true := by
  cases c <;> cases a <;> simp [sameHead] at ha <;> cases b <;> simp_all [sameHead]

/-- An equivalence that is kept by every way of building a type from components. -/
structure Congruence (equal : Ty → Ty → Prop) : Prop where
  refl : ∀ a, equal a a
  symm : ∀ {a b}, equal a b → equal b a
  trans : ∀ {a b c}, equal a b → equal b c → equal a c
  node : ∀ {a b}, a.sameHead b = true →
    (∀ p ∈ a.children.zip b.children, equal p.1 p.2) → equal a b

namespace Congruence

variable {equal : Ty → Ty → Prop}

/-- Replacing variables by equal types gives equal types. -/
theorem subst (h : Congruence equal) {f g : TypeVar → Ty} {t : Ty}
    (hfg : ∀ v, t.occurs v = true → equal (f v) (g v)) : equal (t.subst f) (t.subst g) := by
  induction t using childInduction with
  | step t ih =>
      cases hvar : t.isVar with
      | true =>
          obtain ⟨v, rfl⟩ := isVar_iff.mp hvar
          exact hfg v (by simp)
      | false =>
          by_cases hcon : ∃ name, t = con name
          · obtain ⟨name, rfl⟩ := hcon
            exact h.refl _
          · have hhead : t.sameHead t = true :=
              sameHead_self hvar fun name heq => hcon ⟨name, heq⟩
            apply h.node (sameHead_subst hhead f g)
            intro p hp
            rw [children_subst f hvar, children_subst g hvar, List.zip_map'] at hp
            obtain ⟨c, hc, rfl⟩ := List.mem_map.mp hp
            exact ih c hc fun v hv => hfg v (occurs_iff_children.mpr (.inr ⟨c, hc, hv⟩))

end Congruence

end Ty

namespace Aliases

/-- Every variable of an alias body has a property. -/
def All (p : TypeVar → Prop) (aliases : Aliases) : Prop :=
  ∀ name body, aliases.get? name = some body → body.All p

/-- No alias stands for a type with variables. -/
def VarFree (aliases : Aliases) : Prop :=
  ∀ name body, aliases.get? name = some body → body.Closed

theorem VarFree.all {aliases : Aliases} (h : aliases.VarFree) (p : TypeVar → Prop) :
    aliases.All p :=
  fun name body hbody => (h name body hbody).mono fun _ hfalse => hfalse.elim

theorem varFree_empty : empty.VarFree := by
  intro name body h
  simp at h

theorem All.insert {p : TypeVar → Prop} {aliases : Aliases} (h : aliases.All p) {name : String}
    {t : Ty} (ht : t.All p) : (aliases.insert name t).All p := by
  intro other body hbody
  rw [get?_insert] at hbody
  split at hbody
  · cases hbody
    exact ht
  · exact h other body hbody

theorem VarFree.insert {aliases : Aliases} (h : aliases.VarFree) {name : String} {t : Ty}
    (ht : t.Closed) : (aliases.insert name t).VarFree :=
  All.insert h ht

/-- The least equality of types that identifies each alias name with its type. -/
inductive Equal (aliases : Aliases) : Ty → Ty → Prop where
  | refl (a : Ty) : Equal aliases a a
  | symm {a b : Ty} : Equal aliases a b → Equal aliases b a
  | trans {a b c : Ty} : Equal aliases a b → Equal aliases b c → Equal aliases a c
  | name {name : String} {body : Ty} :
      aliases.get? name = some body → Equal aliases (.con name) body
  | node {a b : Ty} : a.sameHead b = true →
      (∀ p ∈ a.children.zip b.children, Equal aliases p.1 p.2) → Equal aliases a b

namespace Equal

theorem congruence (aliases : Aliases) : Ty.Congruence aliases.Equal where
  refl := .refl
  symm := .symm
  trans := .trans
  node := .node

/-- Equal types stay equal when their variables are replaced. -/
theorem subst {aliases : Aliases} (hfree : aliases.VarFree) {a b : Ty}
    (h : aliases.Equal a b) (f : TypeVar → Ty) : aliases.Equal (a.subst f) (b.subst f) := by
  induction h with
  | refl a => exact .refl _
  | symm _ ih => exact ih.symm
  | trans _ _ ih ih' => exact ih.trans ih'
  | @name name body hbody =>
      rw [(hfree name body hbody).subst_eq f]
      exact .name hbody
  | @node a b hhead _ ih =>
      obtain ⟨ha, hb⟩ := Ty.isVar_of_sameHead hhead
      apply Equal.node (Ty.sameHead_subst hhead f f)
      intro p hp
      rw [Ty.children_subst f ha, Ty.children_subst f hb, List.zip_map] at hp
      obtain ⟨q, hq, rfl⟩ := List.mem_map.mp hp
      exact ih q hq

end Equal

/-- The two places where an alias name is replaced. -/
theorem unfoldHead_cases {aliases : Aliases} {t t' : Ty} {name : String}
    (h : aliases.unfoldHead t = some (name, t')) :
    ∃ body, aliases.get? name = some body ∧
      ((t = .con name ∧ t' = body) ∨ ∃ args, t = .app (.con name) args ∧ t' = .app body args) := by
  unfold unfoldHead at h
  split at h
  · obtain ⟨body, hbody, heq⟩ := Option.map_eq_some_iff.mp h
    cases heq
    exact ⟨_, hbody, .inl ⟨rfl, rfl⟩⟩
  · obtain ⟨body, hbody, heq⟩ := Option.map_eq_some_iff.mp h
    cases heq
    exact ⟨_, hbody, .inr ⟨_, rfl, rfl⟩⟩
  · cases h

/-- Replacing the alias name at the head of a type gives an equal type. -/
theorem equal_unfoldHead {aliases : Aliases} {t t' : Ty} {name : String}
    (h : aliases.unfoldHead t = some (name, t')) : aliases.Equal t t' := by
  obtain ⟨body, hbody, ⟨rfl, rfl⟩ | ⟨args, rfl, rfl⟩⟩ := unfoldHead_cases h
  · exact .name hbody
  · apply Equal.node (by simp [Ty.sameHead])
    intro p hp
    simp only [Ty.children, List.zip_cons_cons, List.mem_cons] at hp
    rcases hp with rfl | hp
    · exact .name hbody
    · exact List.forall₂_zip (List.forall₂_same.mpr fun c _ => Equal.refl c) hp

/-- Forgetting aliases leaves fewer types equal. -/
theorem Equal.of_erase {aliases : Aliases} {name : String} {a b : Ty}
    (h : (aliases.erase name).Equal a b) : aliases.Equal a b := by
  induction h with
  | refl a => exact .refl a
  | symm _ ih => exact ih.symm
  | trans _ _ ih ih' => exact ih.trans ih'
  | name hbody =>
      rw [get?_erase] at hbody
      split at hbody
      · cases hbody
      · exact .name hbody
  | node hhead _ ih => exact .node hhead ih

theorem equal_expandWithin (steps : Nat) (aliases : Aliases) (t : Ty) :
    aliases.Equal t (expandWithin steps aliases t) := by
  induction steps generalizing aliases t with
  | zero => exact .refl t
  | succ steps ih =>
      unfold expandWithin
      split
      · exact .refl t
      · next name t' h => exact (equal_unfoldHead h).trans (ih (aliases.erase name) t').of_erase

/-- Expansion gives an equal type. -/
theorem equal_expand (aliases : Aliases) (t : Ty) : aliases.Equal t (aliases.expand t) :=
  equal_expandWithin _ _ _

theorem All.erase {p : TypeVar → Prop} {aliases : Aliases} (h : aliases.All p) (name : String) :
    (aliases.erase name).All p := by
  intro n body hbody
  rw [get?_erase] at hbody
  split at hbody
  · cases hbody
  · exact h n body hbody

theorem All.unfoldHead {p : TypeVar → Prop} {aliases : Aliases} (h : aliases.All p) {t t' : Ty}
    {name : String} (hhead : aliases.unfoldHead t = some (name, t')) (ht : t.All p) :
    t'.All p := by
  obtain ⟨body, hbody, ⟨rfl, rfl⟩ | ⟨args, rfl, rfl⟩⟩ := unfoldHead_cases hhead
  · exact h name _ hbody
  · exact Ty.all_app.mpr ⟨h name body hbody, (Ty.all_app.mp ht).2⟩

/-- The variables of an expansion come from the type and from alias bodies. -/
theorem All.expand {p : TypeVar → Prop} {aliases : Aliases} (h : aliases.All p) {t : Ty}
    (ht : t.All p) : (aliases.expand t).All p := by
  have hwithin : ∀ steps (aliases : Aliases) t, aliases.All p → t.All p →
      (expandWithin steps aliases t).All p := by
    intro steps
    induction steps with
    | zero => exact fun _ _ _ ht => ht
    | succ steps ih =>
        intro aliases t h ht
        unfold expandWithin
        split
        · exact ht
        · next name t' hhead => exact ih _ _ (h.erase name) (h.unfoldHead hhead ht)
  exact hwithin _ _ _ h ht

end Aliases

end Rubric
