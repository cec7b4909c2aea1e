import Mathlib.Logic.Function.Basic
import Rubric.Proofs.Types.Equality
import Rubric.Proofs.Types.Resolution

/-!
# Renaming variables

A renaming acts on types, on substitutions (on the bound variables and on the types they are
bound to) and on tables. Resolving and composing go along with every injective renaming, and
so does the expansion of aliases when the renaming leaves the variables of alias bodies
alone.
-/

namespace Rubric

namespace Ty

/-- Give every variable of a type a new name. -/
def rename (ρ : TypeVar → TypeVar) (t : Ty) : Ty :=
  t.subst fun v => .var (ρ v)

variable {ρ : TypeVar → TypeVar}

@[simp] theorem rename_var (v : TypeVar) : (var v).rename ρ = var (ρ v) := rfl

@[simp] theorem rename_con (name : String) : (con name).rename ρ = con name := rfl

@[simp] theorem rename_app (base : Ty) (args : List Ty) :
    (app base args).rename ρ = app (base.rename ρ) (args.map (rename ρ)) := by
  simp [rename, subst]

@[simp] theorem rename_func (input output : Ty) :
    (func input output).rename ρ = func (input.rename ρ) (output.rename ρ) := rfl

@[simp] theorem rename_list (element : Ty) : (list element).rename ρ = list (element.rename ρ) :=
  rfl

@[simp] theorem rename_tuple (elements : List Ty) :
    (tuple elements).rename ρ = tuple (elements.map (rename ρ)) := by
  simp [rename, subst]

theorem rename_curried (inputs : List Ty) (output : Ty) :
    (curried inputs output).rename ρ = curried (inputs.map (rename ρ)) (output.rename ρ) :=
  subst_curried _ inputs output

/-- Variables may be renamed before they are replaced, if what replaces them is renamed. -/
theorem subst_rename_comm {f g : TypeVar → Ty} (h : ∀ v, g (ρ v) = (f v).rename ρ) (t : Ty) :
    (t.rename ρ).subst g = (t.subst f).rename ρ := by
  unfold rename
  rw [subst_subst, subst_subst]
  exact subst_congr fun v _ => h v

theorem rename_eq_self {t : Ty} (h : t.All fun v => ρ v = v) : t.rename ρ = t :=
  subst_eq_self fun v hv => congrArg var (h v hv)

theorem rename_congr {ρ' : TypeVar → TypeVar} {t : Ty} (h : t.All fun v => ρ v = ρ' v) :
    t.rename ρ = t.rename ρ' :=
  subst_congr fun v hv => congrArg var (h v hv)

theorem rename_injective (hρ : Function.Injective ρ) : Function.Injective (rename ρ) := by
  obtain ⟨back, hback⟩ := hρ.hasLeftInverse
  have hinverse : Function.LeftInverse (rename back) (rename ρ) := by
    intro t
    unfold rename
    rw [subst_subst]
    exact subst_eq_self fun v _ => congrArg var (hback v)
  exact hinverse.injective

theorem occurs_rename (hρ : Function.Injective ρ) (t : Ty) (v : TypeVar) :
    (t.rename ρ).occurs (ρ v) = t.occurs v := by
  rw [Bool.eq_iff_iff]
  unfold rename
  rw [occurs_subst_iff]
  constructor
  · rintro ⟨w, hw, hsame⟩
    have heq : ρ v = ρ w := by simpa using hsame
    rwa [hρ heq]
  · intro h
    exact ⟨v, h, by simp⟩

theorem size_rename (t : Ty) : (t.rename ρ).size = t.size := by
  have hrow : ∀ ts : List Ty, (∀ t ∈ ts, (t.rename ρ).size = t.size) →
      sizeAll (ts.map (rename ρ)) = sizeAll ts := by
    intro ts hts
    induction ts with
    | nil => rfl
    | cons t ts ih =>
        obtain ⟨ht, hts⟩ := List.forall_mem_cons.mp hts
        simp only [List.map_cons, sizeAll, ht, ih hts]
  induction t with
  | var v => rfl
  | con name => rfl
  | app base args ihbase ihargs => simp only [rename_app, size, ihbase, hrow args ihargs]
  | func input output ihinput ihoutput => simp only [rename_func, size, ihinput, ihoutput]
  | list element ih => simp only [rename_list, size, ih]
  | tuple elements ih => simp only [rename_tuple, size, hrow elements ih]

@[simp] theorem isVar_rename (t : Ty) : (t.rename ρ).isVar = t.isVar := by
  cases t <;> simp [isVar]

theorem children_rename (t : Ty) : (t.rename ρ).children = t.children.map (rename ρ) := by
  cases t <;> simp [children]

theorem sameHead_rename (a b : Ty) : (a.rename ρ).sameHead (b.rename ρ) = a.sameHead b := by
  cases a <;> cases b <;> simp [sameHead]

end Ty

/-! ## Tables -/

namespace Table

variable {κ α β : Type} [DecidableEq κ]

/-- Change every key and every value of a table. -/
def rekey (f : κ → κ) (g : α → β) (table : Table κ α) : Table κ β :=
  ⟨table.entries.map fun entry => (f entry.1, g entry.2)⟩

theorem get?_rekey {f : κ → κ} (hf : Function.Injective f) (g : α → β) (table : Table κ α)
    (key : κ) : (table.rekey f g).get? (f key) = (table.get? key).map g := by
  unfold rekey get?
  induction table.entries with
  | nil => rfl
  | cons entry rest ih =>
      by_cases h : entry.1 = key
      · simp [h]
      · have hkeys : f entry.1 ≠ f key := fun heq => h (hf heq)
        simpa [h, hkeys] using ih

theorem rekey_orElse {f : κ → κ} (hf : Function.Injective f) (g : α → β)
    (table other : Table κ α) :
    (table.orElse other).rekey f g = (table.rekey f g).orElse (other.rekey f g) := by
  have hcontains : ∀ key, (table.rekey f g).contains (f key) = table.contains key := by
    intro key
    simp [contains, get?_rekey hf]
  simp only [orElse, rekey, List.map_append, List.filter_map, Function.comp_def]
  simp only [← rekey.eq_def, hcontains]

theorem mapValues_erase (f : α → β) (table : Table κ α) (key : κ) :
    (table.erase key).mapValues f = (table.mapValues f).erase key := by
  simp only [erase, mapValues, List.filter_map, Function.comp_def]

theorem mapValues_insert (f : α → β) (table : Table κ α) (key : κ) (value : α) :
    (table.insert key value).mapValues f = (table.mapValues f).insert key (f value) := by
  unfold insert
  rw [← mapValues_erase]
  rfl

end Table

/-! ## Substitutions -/

namespace Substitution

/-- Rename the variables that are bound and those that they are bound to. -/
def rename (ρ : TypeVar → TypeVar) (s : Substitution) : Substitution :=
  ⟨s.bindings.rekey ρ (Ty.rename ρ)⟩

variable {ρ : TypeVar → TypeVar}

@[simp] theorem rename_empty : empty.rename ρ = empty := rfl

@[simp] theorem rename_singleton (v : TypeVar) (t : Ty) :
    (singleton v t).rename ρ = singleton (ρ v) (t.rename ρ) := rfl

theorem size_rename (s : Substitution) : (s.rename ρ).size = s.size :=
  List.length_map _

/-- Only renamed variables are bound. -/
theorem exists_of_get?_rename {s : Substitution} {w : TypeVar} {t : Ty}
    (h : (s.rename ρ).get? w = some t) : ∃ v, w = ρ v := by
  obtain ⟨entry, _, hentry⟩ := List.mem_map.mp (Table.mem_entries_of_get? h)
  exact ⟨entry.1, (congrArg Prod.fst hentry).symm⟩

section Injective

variable (hρ : Function.Injective ρ)

include hρ

theorem get?_rename (s : Substitution) (v : TypeVar) :
    (s.rename ρ).get? (ρ v) = (s.get? v).map (Ty.rename ρ) :=
  Table.get?_rekey hρ _ _ v

theorem image_rename (s : Substitution) (v : TypeVar) :
    (s.rename ρ).image (ρ v) = (s.image v).rename ρ := by
  unfold image
  rw [get?_rename hρ]
  cases s.get? v <;> rfl

theorem chase_rename (s : Substitution) (links : Nat) (v : TypeVar) :
    (s.rename ρ).chase links (ρ v) = (s.chase links v).rename ρ := by
  induction links generalizing v with
  | zero => rfl
  | succ links ih =>
      unfold chase
      rw [get?_rename hρ]
      cases s.get? v with
      | none => rfl
      | some t => exact Ty.subst_rename_comm ih t

theorem apply_rename (s : Substitution) (t : Ty) :
    (s.rename ρ).apply (t.rename ρ) = (s.apply t).rename ρ := by
  unfold apply
  rw [size_rename]
  exact Ty.subst_rename_comm (chase_rename hρ s s.size) t

theorem compose_rename (first second : Substitution) :
    (first.rename ρ).compose (second.rename ρ) = (first.compose second).rename ρ := by
  have hvalues : (first.bindings.rekey ρ (Ty.rename ρ)).mapValues (second.rename ρ).apply =
      (first.bindings.mapValues second.apply).rekey ρ (Ty.rename ρ) := by
    simp only [Table.mapValues, Table.rekey, List.map_map, Function.comp_def, apply_rename hρ]
  unfold compose rename
  rw [Table.rekey_orElse hρ, ← hvalues]
  rfl

end Injective

end Substitution

/-! ## Aliases -/

namespace Aliases

variable {ρ : TypeVar → TypeVar} {aliases : Aliases}

theorem unfoldHead_rename (hfix : aliases.All fun v => ρ v = v) (t : Ty) :
    aliases.unfoldHead (t.rename ρ) =
      (aliases.unfoldHead t).map (Prod.map id (Ty.rename ρ)) := by
  have hbody : ∀ name body, aliases.get? name = some body → body.rename ρ = body :=
    fun name body h => Ty.rename_eq_self (hfix name body h)
  cases t with
  | con name =>
      simp only [Ty.rename_con, unfoldHead]
      cases h : aliases.get? name with
      | none => rfl
      | some body => simp [hbody name body h]
  | app base args =>
      cases base with
      | con name =>
          simp only [Ty.rename_app, Ty.rename_con, unfoldHead]
          cases h : aliases.get? name with
          | none => rfl
          | some body => simp [hbody name body h]
      | _ => simp [unfoldHead]
  | _ => simp [unfoldHead]

theorem expand_rename (hfix : aliases.All fun v => ρ v = v) (t : Ty) :
    aliases.expand (t.rename ρ) = (aliases.expand t).rename ρ := by
  have hwithin : ∀ steps (left : Aliases) t, (left.All fun v => ρ v = v) →
      expandWithin steps left (t.rename ρ) = (expandWithin steps left t).rename ρ := by
    intro steps
    induction steps with
    | zero => exact fun _ _ _ => rfl
    | succ steps ih =>
        intro left t hleft
        unfold expandWithin
        rw [unfoldHead_rename hleft]
        cases left.unfoldHead t with
        | none => rfl
        | some found => exact ih _ _ (All.erase hleft found.1)
  exact hwithin _ _ _ hfix

end Aliases

end Rubric
