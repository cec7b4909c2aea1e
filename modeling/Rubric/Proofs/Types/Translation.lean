import Rubric.Proofs.Types.Normal
import Rubric.Proofs.Types.Resolution

/-!
# Translations of types

A translation of types is uniform when it leaves variables alone and may be made before
or after variables are replaced. It then carries over to substitutions, binding by
binding, and resolving and composing go along with it. The full expansion of types is
such a translation when alias bodies have no variables.
-/

namespace Rubric

namespace Ty

/-- A translation that does not look at variables. -/
structure Uniform (φ : Ty → Ty) : Prop where
  var : ∀ v, φ (.var v) = .var v
  subst : ∀ (f : TypeVar → Ty) t, φ (t.subst f) = (φ t).subst fun v => φ (f v)

theorem uniform_id : Uniform id where
  var _ := rfl
  subst _ _ := rfl

/-! ## Replacing names by closed types -/

section Names

variable {g : String → Ty}

theorem mapNames_subst (hg : ∀ name, (g name).Closed) (f : TypeVar → Ty) (t : Ty) :
    (t.subst f).mapNames g = (t.mapNames g).subst fun v => (f v).mapNames g := by
  induction t with
  | var v => rfl
  | con name => exact ((hg name).subst_eq _).symm
  | app base args ihbase ihargs =>
      simp only [subst, mapNames, substAll_eq_map, mapNamesAll_eq_map, ihbase, List.map_map,
        app.injEq, true_and]
      exact List.map_congr_left ihargs
  | func input output ihinput ihoutput => simp only [subst, mapNames, ihinput, ihoutput]
  | list element ih => simp only [subst, mapNames, ih]
  | tuple elements ih =>
      simp only [subst, mapNames, substAll_eq_map, mapNamesAll_eq_map, List.map_map,
        tuple.injEq]
      exact List.map_congr_left ih

theorem occurs_mapNames (hg : ∀ name, (g name).Closed) {t : Ty} {v : TypeVar} :
    (t.mapNames g).occurs v = true ↔ t.occurs v = true := by
  induction t with
  | var w => rfl
  | con name => simpa using hg name v
  | app base args ihbase ihargs =>
      have hargs : (∃ t ∈ args, (t.mapNames g).occurs v = true) ↔ ∃ t ∈ args, t.occurs v = true :=
        exists_congr fun t => and_congr_right (ihargs t)
      simp [ihbase, hargs]
  | func input output ihinput ihoutput => simp [ihinput, ihoutput]
  | list element ih => simp [ih]
  | tuple elements ih =>
      have helements : (∃ t ∈ elements, (t.mapNames g).occurs v = true) ↔
          ∃ t ∈ elements, t.occurs v = true :=
        exists_congr fun t => and_congr_right (ih t)
      simp [helements]

end Names

end Ty

namespace Aliases

/-! ## Full expansion as a translation -/

section Normal

variable {aliases : Aliases} (hfree : aliases.VarFree)

include hfree

theorem closed_normalName (links : Nat) (name : String) :
    (match aliases.get? name with
      | none => Ty.con name
      | some body => aliases.normalWithin links body).Closed := by
  induction links generalizing name with
  | zero =>
      cases hbody : aliases.get? name with
      | none => simp [Ty.Closed]
      | some body => exact hfree name body hbody
  | succ links ih =>
      cases hbody : aliases.get? name with
      | none => simp [Ty.Closed]
      | some body =>
          intro v hv
          exact hfree name body hbody v ((Ty.occurs_mapNames ih).mp hv)

theorem uniform_normal : Ty.Uniform aliases.normal where
  var := aliases.normal_var
  subst f t := by
    unfold normal
    cases aliases.table.size with
    | zero => rfl
    | succ links => exact Ty.mapNames_subst (closed_normalName hfree links) f t

theorem occurs_normal (t : Ty) (v : TypeVar) : (aliases.normal t).occurs v = t.occurs v := by
  rw [Bool.eq_iff_iff]
  unfold normal
  cases aliases.table.size with
  | zero => rfl
  | succ links => exact Ty.occurs_mapNames (closed_normalName hfree links)

theorem isVar_normal (t : Ty) : (aliases.normal t).isVar = t.isVar := by
  cases t with
  | con name =>
      cases hvar : (aliases.normal (.con name)).isVar with
      | false => rfl
      | true =>
          obtain ⟨v, hv⟩ := Ty.isVar_iff.mp hvar
          have hoccurs := occurs_normal hfree (.con name) v
          simp [hv] at hoccurs
  | _ => simp [Ty.isVar]

end Normal

/-! ## Heads that are no aliases -/

section Heads

variable {aliases : Aliases} {a b : Ty}

theorem normal_expand (hacyclic : aliases.Acyclic) (t : Ty) :
    aliases.normal (aliases.expand t) = aliases.normal t :=
  ((aliases.equal_expand t).normal_eq hacyclic).symm

theorem eq_con_of_normal (h : aliases.unfoldHead a = none) {name : String}
    (heq : aliases.normal a = .con name) : a = .con name := by
  cases a with
  | con other => rwa [normal_con_of_unfoldHead h] at heq
  | _ => simp at heq

theorem sameHead_normal (ha : aliases.unfoldHead a = none) (hb : aliases.unfoldHead b = none) :
    (aliases.normal a).sameHead (aliases.normal b) = a.sameHead b := by
  cases a with
  | con name =>
      rw [normal_con_of_unfoldHead ha]
      cases b <;> simp [Ty.sameHead]
  | var v => simp [Ty.sameHead]
  | _ =>
      cases b with
      | con name =>
          rw [normal_con_of_unfoldHead hb]
          simp [Ty.sameHead]
      | _ => simp [Ty.sameHead]

end Heads

end Aliases

namespace Substitution

/-! ## Translated substitutions -/

/-- Translate every bound type. -/
def mapTypes (φ : Ty → Ty) (s : Substitution) : Substitution :=
  ⟨s.bindings.mapValues φ⟩

@[simp] theorem get?_mapTypes (φ : Ty → Ty) (s : Substitution) (v : TypeVar) :
    (s.mapTypes φ).get? v = (s.get? v).map φ :=
  Table.get?_mapValues φ s.bindings v

@[simp] theorem mapTypes_empty (φ : Ty → Ty) : empty.mapTypes φ = empty := rfl

@[simp] theorem mapTypes_singleton (φ : Ty → Ty) (v : TypeVar) (t : Ty) :
    (singleton v t).mapTypes φ = singleton v (φ t) := rfl

@[simp] theorem mapTypes_id (s : Substitution) : s.mapTypes id = s := by
  simp [mapTypes, Table.mapValues]

theorem size_mapTypes (φ : Ty → Ty) (s : Substitution) : (s.mapTypes φ).size = s.size :=
  List.length_map _

section Uniform

variable {φ : Ty → Ty} (hφ : Ty.Uniform φ)

include hφ

theorem chase_mapTypes (s : Substitution) (links : Nat) (v : TypeVar) :
    (s.mapTypes φ).chase links v = φ (s.chase links v) := by
  induction links generalizing v with
  | zero => exact (hφ.var v).symm
  | succ links ih =>
      unfold chase
      rw [get?_mapTypes]
      cases s.get? v with
      | none => exact (hφ.var v).symm
      | some t =>
          have hlinks : (s.mapTypes φ).chase links = fun w => φ (s.chase links w) := funext ih
          simp only [Option.map_some, hlinks, hφ.subst]

theorem apply_mapTypes (s : Substitution) (t : Ty) :
    (s.mapTypes φ).apply (φ t) = φ (s.apply t) := by
  unfold apply
  rw [size_mapTypes, hφ.subst]
  exact Ty.subst_congr fun v _ => chase_mapTypes hφ s s.size v

theorem compose_mapTypes (first second : Substitution) :
    (first.mapTypes φ).compose (second.mapTypes φ) = (first.compose second).mapTypes φ := by
  have hvalues : (first.bindings.mapValues φ).mapValues (second.mapTypes φ).apply =
      (first.bindings.mapValues second.apply).mapValues φ := by
    simp only [Table.mapValues, List.map_map, Function.comp_def, apply_mapTypes hφ]
  simp only [compose, mapTypes, Table.mapValues_orElse]
  exact congrArg (fun table => Substitution.mk (table.orElse (second.bindings.mapValues φ))) hvalues

end Uniform

end Substitution

end Rubric
