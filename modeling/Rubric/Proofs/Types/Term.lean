import Rubric.Typing.Ty

/-!
# Structure of types

Types hold lists of types, so their induction principle hands out one hypothesis for
each member of such a list. The lemmas below say what replacing variables does to the
variables, the names and the size of a type, and how two types of the same shape are
taken apart into the pairs of their components.
-/

namespace Rubric

namespace Ty

-- On a type whose head is known these recursions compute.
attribute [simp] occurs occursAny size sizeAll subst substAll

@[elab_as_elim, induction_eliminator]
theorem inductionOn {motive : Ty → Prop}
    (var : ∀ v, motive (.var v))
    (con : ∀ name, motive (.con name))
    (app : ∀ base args, motive base → (∀ t ∈ args, motive t) → motive (.app base args))
    (func : ∀ input output, motive input → motive output → motive (.func input output))
    (list : ∀ element, motive element → motive (.list element))
    (tuple : ∀ elements, (∀ t ∈ elements, motive t) → motive (.tuple elements))
    (t : Ty) : motive t := by
  refine @Ty.rec motive (fun ts => ∀ t ∈ ts, motive t) var con app func list tuple ?_ ?_ t
  · intro t ht
    cases ht
  · intro head tail hhead htail t ht
    rcases List.mem_cons.mp ht with rfl | ht
    · exact hhead
    · exact htail t ht

/-! ## Companions on lists -/

@[simp] theorem substAll_eq_map (f : TypeVar → Ty) (ts : List Ty) :
    substAll f ts = ts.map (subst f) := by
  induction ts with
  | nil => simp
  | cons t ts ih => simp [ih]

@[simp] theorem occursAny_iff (v : TypeVar) (ts : List Ty) :
    occursAny v ts = true ↔ ∃ t ∈ ts, t.occurs v = true := by
  induction ts with
  | nil => simp
  | cons t ts ih => simp [ih]

theorem size_le_sizeAll {t : Ty} {ts : List Ty} (h : t ∈ ts) : t.size ≤ sizeAll ts := by
  induction ts with
  | nil => cases h
  | cons head tail ih =>
      rcases List.mem_cons.mp h with rfl | h
      · simp
      · have htail := ih h
        simp only [sizeAll]
        omega

/-! ## Variables -/

/-- Every variable of a type has a property. -/
def All (p : TypeVar → Prop) (t : Ty) : Prop :=
  ∀ v, t.occurs v = true → p v

/-- A type without variables. -/
def Closed (t : Ty) : Prop :=
  t.All fun _ => False

@[simp] theorem all_var {p : TypeVar → Prop} {v : TypeVar} : (var v).All p ↔ p v := by
  simp [All]

@[simp] theorem all_con {p : TypeVar → Prop} {name : String} : (con name).All p := by
  simp [All]

@[simp] theorem all_app {p : TypeVar → Prop} {base : Ty} {args : List Ty} :
    (app base args).All p ↔ base.All p ∧ ∀ t ∈ args, t.All p := by
  simp only [All, occurs, Bool.or_eq_true, occursAny_iff]
  constructor
  · intro h
    exact ⟨fun v hv => h v (.inl hv), fun t ht v hv => h v (.inr ⟨t, ht, hv⟩)⟩
  · rintro ⟨hbase, hargs⟩ v (hv | ⟨t, ht, hv⟩)
    · exact hbase v hv
    · exact hargs t ht v hv

@[simp] theorem all_func {p : TypeVar → Prop} {input output : Ty} :
    (func input output).All p ↔ input.All p ∧ output.All p := by
  simp only [All, occurs, Bool.or_eq_true]
  constructor
  · intro h
    exact ⟨fun v hv => h v (.inl hv), fun v hv => h v (.inr hv)⟩
  · rintro ⟨hinput, houtput⟩ v (hv | hv)
    · exact hinput v hv
    · exact houtput v hv

@[simp] theorem all_list {p : TypeVar → Prop} {element : Ty} :
    (list element).All p ↔ element.All p := by
  simp [All]

@[simp] theorem all_tuple {p : TypeVar → Prop} {elements : List Ty} :
    (tuple elements).All p ↔ ∀ t ∈ elements, t.All p := by
  simp only [All, occurs, occursAny_iff]
  constructor
  · intro h t ht v hv
    exact h v ⟨t, ht, hv⟩
  · rintro h v ⟨t, ht, hv⟩
    exact h t ht v hv

theorem All.mono {p q : TypeVar → Prop} {t : Ty} (h : t.All p) (himp : ∀ v, p v → q v) :
    t.All q :=
  fun v hv => himp v (h v hv)

theorem all_curried {p : TypeVar → Prop} {inputs : List Ty} {output : Ty}
    (hinputs : ∀ t ∈ inputs, t.All p) (houtput : output.All p) :
    (curried inputs output).All p := by
  induction inputs with
  | nil => exact houtput
  | cons t ts ih =>
      rw [List.forall_mem_cons] at hinputs
      exact all_func.mpr ⟨hinputs.1, ih hinputs.2⟩

/-! ## Replacing variables -/

theorem subst_congr {f g : TypeVar → Ty} {t : Ty}
    (h : ∀ v, t.occurs v = true → f v = g v) : t.subst f = t.subst g := by
  change t.All (fun v => f v = g v) at h
  induction t with
  | var v => simpa using h
  | con name => rfl
  | app base args ihbase ihargs =>
      rw [all_app] at h
      simp only [subst, substAll_eq_map, ihbase h.1, app.injEq, true_and]
      exact List.map_congr_left fun t ht => ihargs t ht (h.2 t ht)
  | func input output ihinput ihoutput =>
      rw [all_func] at h
      simp only [subst, ihinput h.1, ihoutput h.2]
  | list element ih =>
      simp only [subst, ih (all_list.mp h)]
  | tuple elements ih =>
      rw [all_tuple] at h
      simp only [subst, substAll_eq_map, tuple.injEq]
      exact List.map_congr_left fun t ht => ih t ht (h t ht)

@[simp] theorem subst_var (t : Ty) : t.subst var = t := by
  induction t with
  | var v => rfl
  | con name => rfl
  | app base args ihbase ihargs =>
      simp only [subst, substAll_eq_map, ihbase, app.injEq, true_and]
      exact (List.map_congr_left ihargs).trans (List.map_id _)
  | func input output ihinput ihoutput => simp only [subst, ihinput, ihoutput]
  | list element ih => simp only [subst, ih]
  | tuple elements ih =>
      simp only [subst, substAll_eq_map, tuple.injEq]
      exact (List.map_congr_left ih).trans (List.map_id _)

theorem subst_eq_self {f : TypeVar → Ty} {t : Ty}
    (h : ∀ v, t.occurs v = true → f v = var v) : t.subst f = t :=
  (subst_congr h).trans (subst_var t)

theorem Closed.subst_eq {t : Ty} (h : t.Closed) (f : TypeVar → Ty) : t.subst f = t :=
  subst_eq_self fun v hv => (h v hv).elim

theorem subst_subst (f g : TypeVar → Ty) (t : Ty) :
    (t.subst f).subst g = t.subst fun v => (f v).subst g := by
  induction t with
  | var v => rfl
  | con name => rfl
  | app base args ihbase ihargs =>
      simp only [subst, substAll_eq_map, ihbase, List.map_map, app.injEq, true_and]
      exact List.map_congr_left ihargs
  | func input output ihinput ihoutput => simp only [subst, ihinput, ihoutput]
  | list element ih => simp only [subst, ih]
  | tuple elements ih =>
      simp only [subst, substAll_eq_map, List.map_map, tuple.injEq]
      exact List.map_congr_left ih

theorem subst_curried (f : TypeVar → Ty) (inputs : List Ty) (output : Ty) :
    (curried inputs output).subst f = curried (inputs.map (subst f)) (output.subst f) := by
  induction inputs with
  | nil => rfl
  | cons t ts ih =>
      change func (t.subst f) ((curried ts output).subst f) = _
      rw [ih]
      rfl

/-! ## Components

Every type that is neither a variable nor a name is a head with a row of components.
Two types with the same head differ in their components only.
-/

/-- The types directly below a type, from left to right. -/
def children : Ty → List Ty
  | var _ => []
  | con _ => []
  | app base args => base :: args
  | func input output => [input, output]
  | list element => [element]
  | tuple elements => elements

/-- Whether two types are built in the same way from equally many components. Variables
and names have no head. -/
def sameHead : Ty → Ty → Bool
  | app _ as, app _ bs => as.length = bs.length
  | func _ _, func _ _ => true
  | list _, list _ => true
  | tuple as, tuple bs => as.length = bs.length
  | _, _ => false

/-- Whether a type is a variable. -/
def isVar : Ty → Bool
  | var _ => true
  | _ => false

theorem isVar_iff {t : Ty} : t.isVar = true ↔ ∃ v, t = var v := by
  cases t <;> simp [isVar]

theorem isVar_of_mem_children {c t : Ty} (h : c ∈ t.children) : t.isVar = false := by
  cases t <;> simp_all [children, isVar]

theorem size_lt_of_mem_children {c t : Ty} (h : c ∈ t.children) : c.size < t.size := by
  cases t with
  | var v => cases h
  | con name => cases h
  | app base args =>
      rcases List.mem_cons.mp h with rfl | h
      · simp only [size]
        omega
      · have := size_le_sizeAll h
        simp only [size]
        omega
  | func input output =>
      simp only [children, List.mem_cons, List.not_mem_nil, or_false] at h
      rcases h with rfl | rfl <;> simp only [size] <;> omega
  | list element =>
      simp only [children, List.mem_singleton] at h
      subst h
      simp only [size]
      omega
  | tuple elements =>
      have := size_le_sizeAll (show c ∈ elements from h)
      simp only [size]
      omega

@[elab_as_elim]
theorem childInduction {motive : Ty → Prop}
    (step : ∀ t, (∀ c ∈ t.children, motive c) → motive t) (t : Ty) : motive t :=
  step t fun c hc =>
    have := size_lt_of_mem_children hc
    childInduction step c
termination_by t.size

theorem occurs_iff_children {t : Ty} {v : TypeVar} :
    t.occurs v = true ↔ t = var v ∨ ∃ c ∈ t.children, c.occurs v = true := by
  cases t with
  | var w => simp [children, @eq_comm _ v]
  | con name => simp [children]
  | app base args => simp [children]
  | func input output => simp [children]
  | list element => simp [children]
  | tuple elements => simp [children]

/-- The numbers of the variables of a type have a bound. -/
theorem exists_bound (t : Ty) : ∃ n, t.All fun v => v.id < n := by
  induction t using childInduction with
  | step t ih =>
      have hchildren : ∀ ts : List Ty, (∀ c ∈ ts, ∃ n, c.All fun v => v.id < n) →
          ∃ n, ∀ c ∈ ts, c.All fun v => v.id < n := by
        intro ts hts
        induction ts with
        | nil => exact ⟨0, by simp⟩
        | cons c rest ihrest =>
            obtain ⟨⟨n, hn⟩, hrest⟩ := List.forall_mem_cons.mp hts
            obtain ⟨m, hm⟩ := ihrest hrest
            refine ⟨max n m, List.forall_mem_cons.mpr ⟨hn.mono ?_, ?_⟩⟩
            · exact fun v hv => Nat.lt_of_lt_of_le hv (Nat.le_max_left n m)
            · exact fun d hd => (hm d hd).mono fun v hv =>
                Nat.lt_of_lt_of_le hv (Nat.le_max_right n m)
      by_cases hvar : ∃ v, t = .var v
      · obtain ⟨v, rfl⟩ := hvar
        exact ⟨v.id + 1, all_var.mpr (Nat.lt_succ_self _)⟩
      · obtain ⟨n, hn⟩ := hchildren t.children ih
        refine ⟨n, ?_⟩
        intro v hv
        rcases occurs_iff_children.mp hv with rfl | ⟨c, hc, hcv⟩
        · exact (hvar ⟨v, rfl⟩).elim
        · exact hn c hc v hcv

theorem exists_not_occurs (t : Ty) : ∃ v, t.occurs v = false := by
  obtain ⟨n, hn⟩ := t.exists_bound
  refine ⟨⟨n, none⟩, ?_⟩
  cases hoccurs : t.occurs ⟨n, none⟩ with
  | false => rfl
  | true => exact (Nat.lt_irrefl n (hn _ hoccurs)).elim

theorem all_of_mem_children {p : TypeVar → Prop} {c t : Ty} (h : t.All p)
    (hc : c ∈ t.children) : c.All p :=
  fun v hv => h v (occurs_iff_children.mpr (.inr ⟨c, hc, hv⟩))

theorem children_subst {t : Ty} (f : TypeVar → Ty) (h : t.isVar = false) :
    (t.subst f).children = t.children.map (subst f) := by
  cases t with
  | var v => simp [isVar] at h
  | con name => rfl
  | app base args => simp [children]
  | func input output => simp [children]
  | list element => simp [children]
  | tuple elements => simp [children]

theorem isVar_subst {t : Ty} (f : TypeVar → Ty) (h : t.isVar = false) :
    (t.subst f).isVar = false := by
  cases t <;> simp_all [isVar]

theorem length_children_of_sameHead {a b : Ty} (h : a.sameHead b = true) :
    a.children.length = b.children.length := by
  cases a <;> cases b <;> simp_all [sameHead, children]

/-- The variables of a substituted type come from the images of its variables. -/
theorem occurs_subst_iff {f : TypeVar → Ty} {t : Ty} {w : TypeVar} :
    (t.subst f).occurs w = true ↔ ∃ v, t.occurs v = true ∧ (f v).occurs w = true := by
  induction t using childInduction with
  | step t ih =>
      cases h : t.isVar with
      | true =>
          obtain ⟨v, rfl⟩ := isVar_iff.mp h
          simp
      | false =>
          constructor
          · intro hw
            rcases occurs_iff_children.mp hw with heq | ⟨c', hc', hw⟩
            · have hvar := isVar_subst f h
              simp [heq, isVar] at hvar
            · rw [children_subst f h] at hc'
              obtain ⟨c, hc, rfl⟩ := List.mem_map.mp hc'
              obtain ⟨v, hv, hw⟩ := (ih c hc).mp hw
              exact ⟨v, occurs_iff_children.mpr (.inr ⟨c, hc, hv⟩), hw⟩
          · rintro ⟨v, hv, hw⟩
            rcases occurs_iff_children.mp hv with rfl | ⟨c, hc, hv⟩
            · simp [isVar] at h
            · refine occurs_iff_children.mpr (.inr ⟨c.subst f, ?_, (ih c hc).mpr ⟨v, hv, hw⟩⟩)
              rw [children_subst f h]
              exact List.mem_map_of_mem hc

theorem all_subst_iff {p : TypeVar → Prop} {f : TypeVar → Ty} {t : Ty} :
    (t.subst f).All p ↔ t.All fun v => (f v).All p := by
  simp only [All, occurs_subst_iff]
  constructor
  · intro h v hv w hw
    exact h w ⟨v, hv, hw⟩
  · rintro h w ⟨v, hv, hw⟩
    exact h v hv w hw

/-! ## Subterms -/

mutual

/-- A type and all types inside it. -/
def subterms : Ty → List Ty
  | var v => [var v]
  | con name => [con name]
  | app base args => app base args :: (base.subterms ++ subtermsAll args)
  | func input output => func input output :: (input.subterms ++ output.subterms)
  | list element => list element :: element.subterms
  | tuple elements => tuple elements :: subtermsAll elements

/-- A row of types and all types inside them. -/
def subtermsAll : List Ty → List Ty
  | [] => []
  | t :: rest => t.subterms ++ subtermsAll rest

end

attribute [simp] subterms subtermsAll

mutual

theorem length_subterms : (t : Ty) → t.subterms.length = t.size
  | var _ => rfl
  | con _ => rfl
  | app base args => by
      simp only [subterms, size, List.length_cons, List.length_append, length_subterms base,
        length_subtermsAll args]
      omega
  | func input output => by
      simp only [subterms, size, List.length_cons, List.length_append, length_subterms input,
        length_subterms output]
      omega
  | list element => by
      simp only [subterms, size, List.length_cons, length_subterms element]
      omega
  | tuple elements => by
      simp only [subterms, size, List.length_cons, length_subtermsAll elements]
      omega

theorem length_subtermsAll : (ts : List Ty) → (subtermsAll ts).length = sizeAll ts
  | [] => rfl
  | t :: rest => by
      simp only [subtermsAll, sizeAll, List.length_append, length_subterms t,
        length_subtermsAll rest]

end

theorem mem_subterms_self (t : Ty) : t ∈ t.subterms := by
  cases t <;> simp

theorem mem_subtermsAll {u : Ty} {ts : List Ty} :
    u ∈ subtermsAll ts ↔ ∃ t ∈ ts, u ∈ t.subterms := by
  induction ts with
  | nil => simp
  | cons t ts ih => simp [ih]

theorem mem_subterms_iff {u t : Ty} :
    u ∈ t.subterms ↔ u = t ∨ ∃ c ∈ t.children, u ∈ c.subterms := by
  cases t <;> simp [children, mem_subtermsAll]

/-- Subterms are closed under taking components. -/
theorem mem_subterms_of_mem_children {c u t : Ty} (hu : u ∈ t.subterms) (hc : c ∈ u.children) :
    c ∈ t.subterms := by
  induction t using childInduction with
  | step t ih =>
      apply mem_subterms_iff.mpr
      rcases mem_subterms_iff.mp hu with rfl | ⟨d, hd, hu⟩
      · exact .inr ⟨c, hc, mem_subterms_self c⟩
      · exact .inr ⟨d, hd, ih d hd hu⟩

theorem size_le_of_mem_subterms {u t : Ty} (h : u ∈ t.subterms) : u.size ≤ t.size := by
  induction t using childInduction with
  | step t ih =>
      rcases mem_subterms_iff.mp h with rfl | ⟨c, hc, hu⟩
      · exact Nat.le_refl _
      · exact Nat.le_of_lt (Nat.lt_of_le_of_lt (ih c hc hu) (size_lt_of_mem_children hc))

/-- Replacing variables keeps one type inside another. -/
theorem mem_subterms_subst {u t : Ty} (f : TypeVar → Ty) (h : u ∈ t.subterms) :
    u.subst f ∈ (t.subst f).subterms := by
  induction t using childInduction with
  | step t ih =>
      rcases mem_subterms_iff.mp h with rfl | ⟨c, hc, hu⟩
      · exact mem_subterms_self _
      · refine mem_subterms_iff.mpr (.inr ⟨c.subst f, ?_, ih c hc hu⟩)
        rw [children_subst f (isVar_of_mem_children hc)]
        exact List.mem_map_of_mem hc

end Ty

end Rubric
