import Rubric.Proofs.Data.Rank
import Rubric.Proofs.Types.Equality

/-!
# Full expansion

The full expansion of a type replaces every alias name in it, at any depth, by the full
expansion of its body. It exists when no alias leads back to itself. Two types are equal
up to aliases exactly when their full expansions are the same, and full expansions can
be taken apart component by component, which the equality itself cannot.
-/

namespace Rubric

namespace Ty

mutual

/-- Replace every name in a type. -/
def mapNames (f : String → Ty) : Ty → Ty
  | var v => var v
  | con name => f name
  | app base args => app (base.mapNames f) (mapNamesAll f args)
  | func input output => func (input.mapNames f) (output.mapNames f)
  | list element => list (element.mapNames f)
  | tuple elements => tuple (mapNamesAll f elements)

/-- Replace every name in a row of types. -/
def mapNamesAll (f : String → Ty) : List Ty → List Ty
  | [] => []
  | t :: rest => t.mapNames f :: mapNamesAll f rest

end

attribute [simp] mapNames mapNamesAll

@[simp] theorem mapNamesAll_eq_map (f : String → Ty) (ts : List Ty) :
    mapNamesAll f ts = ts.map (mapNames f) := by
  induction ts with
  | nil => simp
  | cons t ts ih => simp [ih]

theorem mapNames_congr {f g : String → Ty} {t : Ty}
    (h : ∀ name, con name ∈ t.subterms → f name = g name) : t.mapNames f = t.mapNames g := by
  induction t with
  | var v => rfl
  | con name => exact h name (by simp)
  | app base args ihbase ihargs =>
      simp only [mapNames, mapNamesAll_eq_map, app.injEq]
      refine ⟨ihbase fun name hname => h name (by simp [hname]), ?_⟩
      apply List.map_congr_left
      intro t ht
      exact ihargs t ht fun name hname =>
        h name (mem_subterms_iff.mpr (.inr ⟨t, List.mem_cons_of_mem _ ht, hname⟩))
  | func input output ihinput ihoutput =>
      simp only [mapNames, func.injEq]
      exact ⟨ihinput fun name hname => h name (by simp [hname]),
        ihoutput fun name hname => h name (by simp [hname])⟩
  | list element ih =>
      simp only [mapNames, list.injEq]
      exact ih fun name hname => h name (by simp [hname])
  | tuple elements ih =>
      simp only [mapNames, mapNamesAll_eq_map, tuple.injEq]
      apply List.map_congr_left
      intro t ht
      exact ih t ht fun name hname =>
        h name (mem_subterms_iff.mpr (.inr ⟨t, ht, hname⟩))

@[simp] theorem mapNames_con (t : Ty) : t.mapNames con = t := by
  induction t with
  | var v => rfl
  | con name => rfl
  | app base args ihbase ihargs =>
      simp only [mapNames, mapNamesAll_eq_map, ihbase, app.injEq, true_and]
      exact (List.map_congr_left ihargs).trans (List.map_id _)
  | func input output ihinput ihoutput => simp only [mapNames, ihinput, ihoutput]
  | list element ih => simp only [mapNames, ih]
  | tuple elements ih =>
      simp only [mapNames, mapNamesAll_eq_map, tuple.injEq]
      exact (List.map_congr_left ih).trans (List.map_id _)

end Ty

namespace Aliases

/-- The body of one alias mentions another name. -/
def Mentions (aliases : Aliases) (name other : String) : Prop :=
  ∃ body, aliases.get? name = some body ∧ .con other ∈ body.subterms

/-- No alias leads back to itself. -/
def Acyclic (aliases : Aliases) : Prop :=
  ∀ name, ¬ Relation.TransGen aliases.Mentions name name

/-- Expand every alias name in a type, through chains of at most the given number of
aliases. -/
def normalWithin (aliases : Aliases) : Nat → Ty → Ty
  | 0, t => t
  | links + 1, t => t.mapNames fun name =>
      match aliases.get? name with
      | none => .con name
      | some body => normalWithin aliases links body

/-- The full expansion of a type. A chain of aliases without repetition is at most as
long as the table. -/
def normal (aliases : Aliases) (t : Ty) : Ty :=
  normalWithin aliases aliases.table.size t

theorem acyclic_empty : empty.Acyclic := by
  intro name h
  obtain ⟨other, hmentions, _⟩ := Relation.TransGen.head'_iff.mp h
  obtain ⟨body, hbody, _⟩ := hmentions
  simp at hbody

@[simp] theorem normal_empty (t : Ty) : empty.normal t = t := rfl

/-! ## Full expansion and components -/

section Components

variable (aliases : Aliases)

@[simp] theorem normal_var (v : TypeVar) : aliases.normal (.var v) = .var v := by
  unfold normal
  cases aliases.table.size <;> simp [normalWithin]

@[simp] theorem normal_app (base : Ty) (args : List Ty) :
    aliases.normal (.app base args) = .app (aliases.normal base) (args.map aliases.normal) := by
  unfold normal
  cases aliases.table.size with
  | zero => simp [normalWithin]
  | succ links => simp [normalWithin]

@[simp] theorem normal_func (input output : Ty) :
    aliases.normal (.func input output) =
      .func (aliases.normal input) (aliases.normal output) := by
  unfold normal
  cases aliases.table.size <;> simp [normalWithin]

@[simp] theorem normal_list (element : Ty) :
    aliases.normal (.list element) = .list (aliases.normal element) := by
  unfold normal
  cases aliases.table.size <;> simp [normalWithin]

@[simp] theorem normal_tuple (elements : List Ty) :
    aliases.normal (.tuple elements) = .tuple (elements.map aliases.normal) := by
  unfold normal
  cases aliases.table.size with
  | zero => simp [normalWithin]
  | succ links => simp [normalWithin]

theorem normal_con_of_free {name : String} (h : aliases.get? name = none) :
    aliases.normal (.con name) = .con name := by
  unfold normal
  cases aliases.table.size <;> simp [normalWithin, h]

theorem children_normal {t : Ty} (h : ∀ name, t ≠ .con name) :
    (aliases.normal t).children = t.children.map aliases.normal := by
  cases t <;> simp_all [Ty.children]

end Components

/-! ## Aliases without cycles -/

/-- The rank of an alias bounds the length of the chains that start from it. -/
theorem Acyclic.exists_rank {aliases : Aliases} (h : aliases.Acyclic) :
    ∃ rank : String → Nat,
      (∀ name other, aliases.Mentions name other → aliases.get? other ≠ none →
        rank other < rank name) ∧
      ∀ name, aliases.get? name ≠ none → rank name < aliases.table.size := by
  have hkey : ∀ name, aliases.get? name ≠ none → name ∈ aliases.table.keys := by
    intro name hname
    obtain ⟨body, hbody⟩ := Option.ne_none_iff_exists'.mp hname
    exact Table.mem_keys_of_get? hbody
  obtain ⟨rank, hdown, hbound⟩ := Rubric.exists_rank aliases.Mentions aliases.table.keys h
  rw [Table.length_keys] at hbound
  exact ⟨rank, fun name other hlink hother => hdown name other hlink (hkey other hother),
    fun name hname => hbound name (hkey name hname)⟩

/-- Further links add nothing once every chain from a type is covered. -/
theorem normalWithin_stable {aliases : Aliases} {rank : String → Nat}
    (hrank : ∀ name other, aliases.Mentions name other → aliases.get? other ≠ none →
      rank other < rank name)
    {links more : Nat} {t : Ty}
    (hlinks : ∀ name, .con name ∈ t.subterms → aliases.get? name ≠ none → rank name < links)
    (hmore : ∀ name, .con name ∈ t.subterms → aliases.get? name ≠ none → rank name < more) :
    aliases.normalWithin links t = aliases.normalWithin more t := by
  -- A type without aliases is its own expansion.
  have hnone : ∀ links (t : Ty), (∀ name, .con name ∈ t.subterms → aliases.get? name = none) →
      aliases.normalWithin links t = t := by
    intro links t ht
    cases links with
    | zero => rfl
    | succ links =>
        calc
          aliases.normalWithin (links + 1) t = t.mapNames .con := by
            apply Ty.mapNames_congr
            intro name hname
            simp [ht name hname]
          _ = t := Ty.mapNames_con t
  induction links generalizing more t with
  | zero =>
      refine (hnone more t ?_).symm
      intro name hname
      by_contra hbound
      exact Nat.not_lt_zero _ (hlinks name hname hbound)
  | succ links ih =>
      cases more with
      | zero =>
          refine hnone (links + 1) t ?_
          intro name hname
          by_contra hbound
          exact Nat.not_lt_zero _ (hmore name hname hbound)
      | succ more =>
          apply Ty.mapNames_congr
          intro name hname
          cases hbody : aliases.get? name with
          | none => rfl
          | some body =>
              have hbound : aliases.get? name ≠ none := by simp [hbody]
              have hdown : ∀ other, .con other ∈ body.subterms → aliases.get? other ≠ none →
                  rank other < rank name :=
                fun other hother => hrank name other ⟨body, hbody, hother⟩
              have hlt := hlinks name hname hbound
              have hlt' := hmore name hname hbound
              apply ih
              · intro other hother hne
                have := hdown other hother hne
                omega
              · intro other hother hne
                have := hdown other hother hne
                omega

theorem normal_con_of_alias {aliases : Aliases} (h : aliases.Acyclic) {name : String} {body : Ty}
    (hbody : aliases.get? name = some body) :
    aliases.normal (.con name) = aliases.normal body := by
  obtain ⟨rank, hdown, hbound⟩ := h.exists_rank
  have hname := hbound name (by simp [hbody])
  unfold normal
  cases hsize : aliases.table.size with
  | zero =>
      rw [hsize] at hname
      exact (Nat.not_lt_zero _ hname).elim
  | succ links =>
      rw [hsize] at hname
      have hstep : aliases.normalWithin (links + 1) (.con name) =
          aliases.normalWithin links body := by
        simp [normalWithin, hbody]
      rw [hstep]
      apply normalWithin_stable hdown
      · intro other hother hne
        have := hdown name other ⟨body, hbody, hother⟩ hne
        omega
      · intro other hother hne
        have := hdown name other ⟨body, hbody, hother⟩ hne
        omega

/-! ## Equality of full expansions -/

theorem map_eq_map_of_zip {f : Ty → Ty} {as bs : List Ty} (hlength : as.length = bs.length)
    (h : ∀ p ∈ as.zip bs, f p.1 = f p.2) : as.map f = bs.map f := by
  have hforall : List.Forall₂ (fun a b => f a = f b) as bs :=
    List.forall₂_iff_zip.mpr ⟨hlength, fun hp => h _ hp⟩
  rw [← List.forall₂_eq_eq_eq, List.forall₂_map_left_iff, List.forall₂_map_right_iff]
  exact hforall

theorem zip_of_map_eq_map {f : Ty → Ty} {as bs : List Ty} (h : as.map f = bs.map f) :
    ∀ p ∈ as.zip bs, f p.1 = f p.2 := by
  rw [← List.forall₂_eq_eq_eq, List.forall₂_map_left_iff, List.forall₂_map_right_iff] at h
  exact fun p hp => List.forall₂_zip h hp

/-- Types with the same head have the same full expansion when their components have. -/
theorem normal_eq_iff_of_sameHead (aliases : Aliases) {a b : Ty} (h : a.sameHead b = true) :
    aliases.normal a = aliases.normal b ↔
      ∀ p ∈ a.children.zip b.children, aliases.normal p.1 = aliases.normal p.2 := by
  have hchildren : aliases.normal a = aliases.normal b ↔
      a.children.map aliases.normal = b.children.map aliases.normal := by
    cases a <;> cases b <;> simp_all [Ty.sameHead, Ty.children]
  rw [hchildren]
  exact ⟨zip_of_map_eq_map, map_eq_map_of_zip (Ty.length_children_of_sameHead h)⟩

theorem normal_congruence (aliases : Aliases) :
    Ty.Congruence fun a b => aliases.normal a = aliases.normal b where
  refl _ := rfl
  symm h := h.symm
  trans h h' := h.trans h'
  node hhead hparts := (normal_eq_iff_of_sameHead aliases hhead).mpr hparts

/-- Types that are equal up to aliases have the same full expansion. -/
theorem Equal.normal_eq {aliases : Aliases} (hacyclic : aliases.Acyclic) {a b : Ty}
    (h : aliases.Equal a b) : aliases.normal a = aliases.normal b := by
  induction h with
  | refl a => rfl
  | symm _ ih => exact ih.symm
  | trans _ _ ih ih' => exact ih.trans ih'
  | name hbody => exact normal_con_of_alias hacyclic hbody
  | node hhead _ ih => exact (normal_eq_iff_of_sameHead aliases hhead).mpr ih

/-! ## Heads of expansions -/

theorem expand_of_unfoldHead {aliases : Aliases} {t : Ty} (h : aliases.unfoldHead t = none) :
    aliases.expand t = t := by
  unfold expand
  cases aliases.table.size with
  | zero => rfl
  | succ steps => simp [expandWithin, h]

theorem normal_con_of_unfoldHead {aliases : Aliases} {name : String}
    (h : aliases.unfoldHead (.con name) = none) : aliases.normal (.con name) = .con name :=
  normal_con_of_free aliases (by simpa [unfoldHead] using h)

/-- Replacing one alias name is all of the expansion when the head is no name then. -/
theorem expand_of_unfoldHead_some {aliases : Aliases} {t t' : Ty} {name : String}
    (h : aliases.unfoldHead t = some (name, t'))
    (h' : ∀ left : Aliases, left.unfoldHead t' = none) : aliases.expand t = t' := by
  obtain ⟨body, hbody, _⟩ := unfoldHead_cases h
  have hkey := List.length_pos_of_mem (Table.mem_entries_of_get? hbody)
  unfold expand Table.size
  cases hsize : aliases.table.entries.length with
  | zero => omega
  | succ steps =>
      rw [expandWithin, h]
      cases steps with
      | zero => rfl
      | succ steps => simp only [expandWithin, h']

/-- The alias at the head of what an alias was replaced by is mentioned in its body. -/
theorem mentions_of_unfoldHead {aliases : Aliases} {t t' t'' : Ty} {name other : String}
    (h : aliases.unfoldHead t = some (name, t')) (h' : aliases.unfoldHead t' = some (other, t'')) :
    aliases.Mentions name other ∧ aliases.get? other ≠ none := by
  obtain ⟨body, hbody, hcases⟩ := unfoldHead_cases h
  obtain ⟨body', hbody', hcases'⟩ := unfoldHead_cases h'
  refine ⟨⟨body, hbody, ?_⟩, by simp [hbody']⟩
  rcases hcases with ⟨_, rfl⟩ | ⟨args, _, rfl⟩
  · rcases hcases' with ⟨rfl, _⟩ | ⟨args, rfl, _⟩ <;> simp
  · rcases hcases' with ⟨heq, _⟩ | ⟨args', heq, _⟩
    · cases heq
    · cases heq
      simp

theorem unfoldHead_of_get?_eq {aliases other : Aliases} {t t' : Ty} {name : String}
    (h : aliases.unfoldHead t = some (name, t')) (heq : other.get? name = aliases.get? name) :
    other.unfoldHead t = some (name, t') := by
  obtain ⟨body, hbody, ⟨rfl, rfl⟩ | ⟨args, rfl, rfl⟩⟩ := unfoldHead_cases h
  · simp [unfoldHead, heq, hbody]
  · simp [unfoldHead, heq, hbody]

/-- Expansion without cycles goes on until the head is no alias. The aliases that were
used up on the way have a larger rank than those still to come. -/
theorem unfoldHead_expand {aliases : Aliases} (hacyclic : aliases.Acyclic) (t : Ty) :
    aliases.unfoldHead (aliases.expand t) = none := by
  obtain ⟨rank, hdown, hbound⟩ := hacyclic.exists_rank
  have hwithin : ∀ steps (left : Aliases) t,
      (∀ name body, left.get? name = some body → aliases.get? name = some body) →
      (∀ name t', aliases.unfoldHead t = some (name, t') → rank name < steps ∧
        ∀ other, rank other ≤ rank name → left.get? other = aliases.get? other) →
      aliases.unfoldHead (expandWithin steps left t) = none := by
    intro steps
    induction steps with
    | zero =>
        intro left t _ hleft
        by_contra hne
        obtain ⟨⟨name, t'⟩, hhead⟩ := Option.ne_none_iff_exists'.mp hne
        exact Nat.not_lt_zero _ (hleft name t' hhead).1
    | succ steps ih =>
        intro left t hsub hleft
        cases hhead : aliases.unfoldHead t with
        | none =>
            have hnone : left.unfoldHead t = none := by
              by_contra hne
              obtain ⟨⟨name, t'⟩, hleftHead⟩ := Option.ne_none_iff_exists'.mp hne
              obtain ⟨body, hbody, _⟩ := unfoldHead_cases hleftHead
              have heq : aliases.get? name = left.get? name := by
                rw [hbody, hsub name body hbody]
              simp [unfoldHead_of_get?_eq hleftHead heq] at hhead
            simp [expandWithin, hnone, hhead]
        | some pair =>
            obtain ⟨name, t'⟩ := pair
            obtain ⟨hlt, hsame⟩ := hleft name t' hhead
            simp only [expandWithin, unfoldHead_of_get?_eq hhead (hsame name (Nat.le_refl _))]
            apply ih
            · intro other body hbody
              rw [get?_erase] at hbody
              split at hbody
              · cases hbody
              · exact hsub other body hbody
            · intro other t'' hother
              obtain ⟨hmentions, hne⟩ := mentions_of_unfoldHead hhead hother
              have hlower := hdown name other hmentions hne
              refine ⟨by omega, ?_⟩
              intro third hthird
              rw [get?_erase, if_neg, hsame third (by omega)]
              rintro rfl
              omega
  apply hwithin
  · exact fun _ _ h => h
  · intro name t' hhead
    obtain ⟨body, hbody, _⟩ := unfoldHead_cases hhead
    exact ⟨hbound name (by simp [hbody]), fun _ _ => rfl⟩

/-! ## Types under a valuation -/

/-- The full expansion of a type whose variables were replaced. -/
def value (aliases : Aliases) (θ : TypeVar → Ty) (t : Ty) : Ty :=
  aliases.normal (t.subst θ)

section Value

variable {aliases : Aliases} {θ : TypeVar → Ty}

theorem value_expand (hfree : aliases.VarFree) (hacyclic : aliases.Acyclic) (t : Ty) :
    aliases.value θ (aliases.expand t) = aliases.value θ t :=
  (((aliases.equal_expand t).subst hfree θ).normal_eq hacyclic).symm

theorem value_parts {a b : Ty} (hhead : a.sameHead b = true)
    (h : aliases.value θ a = aliases.value θ b) :
    ∀ p ∈ a.children.zip b.children, aliases.value θ p.1 = aliases.value θ p.2 := by
  obtain ⟨ha, hb⟩ := Ty.isVar_of_sameHead hhead
  have hparts := (normal_eq_iff_of_sameHead aliases (Ty.sameHead_subst hhead θ θ)).mp h
  rw [Ty.children_subst θ ha, Ty.children_subst θ hb, List.zip_map] at hparts
  exact fun p hp => hparts _ (List.mem_map_of_mem hp)

theorem sameHead_value (aliases : Aliases) (θ : TypeVar → Ty) {t : Ty}
    (hvar : t.isVar = false) (hcon : ∀ name, t ≠ .con name) :
    t.sameHead (aliases.value θ t) = true := by
  cases t <;> simp_all [value, Ty.sameHead, Ty.isVar]

theorem value_con_of_unfoldHead {name : String} (h : aliases.unfoldHead (.con name) = none) :
    aliases.value θ (.con name) = .con name :=
  normal_con_of_unfoldHead h

/-- Types whose heads are no aliases have the same full expansion only if they are the
same name or have the same head. -/
theorem value_heads {a b : Ty} (ha : a.isVar = false) (hb : b.isVar = false)
    (hahead : aliases.unfoldHead a = none) (hbhead : aliases.unfoldHead b = none)
    (h : aliases.value θ a = aliases.value θ b) :
    (∃ name, a = .con name ∧ b = .con name) ∨ a.sameHead b = true := by
  by_cases hacon : ∃ name, a = .con name
  · obtain ⟨name, rfl⟩ := hacon
    rw [value_con_of_unfoldHead hahead] at h
    by_cases hbcon : ∃ name', b = .con name'
    · obtain ⟨name', rfl⟩ := hbcon
      rw [value_con_of_unfoldHead hbhead] at h
      cases h
      exact .inl ⟨name, rfl, rfl⟩
    · have hbsame := sameHead_value aliases θ hb
        (not_exists.mp hbcon)
      simp [← h, Ty.sameHead] at hbsame
  · have hasame := sameHead_value aliases θ ha (not_exists.mp hacon)
    by_cases hbcon : ∃ name', b = .con name'
    · obtain ⟨name', rfl⟩ := hbcon
      rw [h, value_con_of_unfoldHead hbhead] at hasame
      simp [Ty.sameHead] at hasame
    · have hbsame := sameHead_value aliases θ hb (not_exists.mp hbcon)
      rw [h] at hasame
      exact .inr (Ty.sameHead_of_sameHead hasame hbsame)

theorem size_value_child_lt (aliases : Aliases) (θ : TypeVar → Ty) {a c : Ty}
    (h : c ∈ a.children) :
    (aliases.value θ c).size < (aliases.value θ a).size := by
  have hchild : c.subst θ ∈ (a.subst θ).children := by
    rw [Ty.children_subst θ (Ty.isVar_of_mem_children h)]
    exact List.mem_map_of_mem h
  have hcon : ∀ name, a.subst θ ≠ .con name := by
    intro name heq
    simp [heq, Ty.children] at hchild
  apply Ty.size_lt_of_mem_children
  unfold value
  rw [children_normal aliases hcon]
  exact List.mem_map_of_mem hchild

/-- A variable inside a type that is not that variable itself has a smaller full
expansion than the type. -/
theorem size_value_lt_of_occurs {t : Ty} {v : TypeVar} (hv : t.occurs v = true) :
    t = .var v ∨ (aliases.value θ (.var v)).size < (aliases.value θ t).size := by
  induction t using Ty.childInduction with
  | step t ih =>
      rcases Ty.occurs_iff_children.mp hv with rfl | ⟨c, hc, hcv⟩
      · exact .inl rfl
      · have hchild := size_value_child_lt aliases θ hc
        rcases ih c hc hcv with rfl | hlt
        · exact .inr hchild
        · exact .inr (Nat.lt_trans hlt hchild)

end Value

end Aliases

end Rubric
