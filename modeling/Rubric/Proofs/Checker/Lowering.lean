import Rubric.Proofs.Checker.Rules
import Rubric.Proofs.Checker.Run

/-!
# Lowering gives the most general instance

A written type is lowered to a type over new variables. Whatever those variables are
replaced by is an instance of the written type, and every instance comes about this way:
a valuation of the older variables extends to the new ones so that the lowered type
becomes the instance. Names keep the variables they were given.
-/

namespace Rubric

/-- All variables of a type have numbers below a bound. -/
def Ty.Below (n : Nat) (t : Ty) : Prop :=
  t.All fun v => v.id < n

theorem Ty.Below.of_le {m n : Nat} {t : Ty} (h : t.Below m) (hmn : m ≤ n) : t.Below n :=
  All.mono h fun _ hv => Nat.lt_of_lt_of_le hv hmn

/-- A valuation extends another from a variable number on. -/
def ExtendsFrom (n : Nat) (θ θ' : TypeVar → Ty) : Prop :=
  ∀ v, v.id < n → θ' v = θ v

namespace ExtendsFrom

variable {m n : Nat} {θ θ' θ'' : TypeVar → Ty}

theorem refl (n : Nat) (θ : TypeVar → Ty) : ExtendsFrom n θ θ :=
  fun _ _ => rfl

theorem trans (h : ExtendsFrom m θ θ') (h' : ExtendsFrom n θ' θ'') (hmn : m ≤ n) :
    ExtendsFrom m θ θ'' := by
  intro v hv
  rw [h' v (Nat.lt_of_lt_of_le hv hmn), h v hv]

theorem subst_eq (h : ExtendsFrom n θ θ') {t : Ty} (ht : t.Below n) : t.subst θ' = t.subst θ :=
  Ty.subst_congr fun v hv => h v (ht v hv)

end ExtendsFrom

/-- A valuation changed at one variable number. -/
def extendAt (n : Nat) (τ : Ty) (θ : TypeVar → Ty) : TypeVar → Ty :=
  fun v => if v.id = n then τ else θ v

@[simp] theorem extendAt_self (n : Nat) (name : Option String) (τ : Ty) (θ : TypeVar → Ty) :
    extendAt n τ θ ⟨n, name⟩ = τ := by
  simp [extendAt]

theorem extendsFrom_extendAt (n : Nat) (τ : Ty) (θ : TypeVar → Ty) :
    ExtendsFrom n θ (extendAt n τ θ) := by
  intro v hv
  exact if_neg (Nat.ne_of_lt hv)

namespace Naming

/-- The variables given to names have numbers below the next free one. -/
def Below (naming : Naming) : Prop :=
  ∀ name v, naming.names.get? name = some v → v.id < naming.next

/-- A valuation gives the variables of names the types that the names stand for. -/
def Values (naming : Naming) (σ : TypeVar → Ty) (ρ : String → Ty) : Prop :=
  ∀ name v, naming.names.get? name = some v → σ v = ρ name

/-- What names stand for when their variables are replaced. -/
def valueOf (naming : Naming) (σ : TypeVar → Ty) (name : String) : Ty :=
  ((naming.names.get? name).map σ).getD (.con name)

theorem values_valueOf (naming : Naming) (σ : TypeVar → Ty) :
    naming.Values σ (naming.valueOf σ) := by
  intro name v hv
  simp [valueOf, hv]

/-- Numbers go up and names keep their variables. -/
structure Grows (before after : Naming) : Prop where
  next_le : before.next ≤ after.next
  names : ∀ name v, before.names.get? name = some v → after.names.get? name = some v
  below : before.Below → after.Below

namespace Grows

theorem refl (naming : Naming) : naming.Grows naming :=
  ⟨Nat.le_refl _, fun _ _ h => h, id⟩

theorem trans {a b c : Naming} (hab : a.Grows b) (hbc : b.Grows c) : a.Grows c :=
  ⟨Nat.le_trans hab.next_le hbc.next_le, fun name v h => hbc.names name v (hab.names name v h),
    fun h => hbc.below (hab.below h)⟩

theorem values {before after : Naming} (h : before.Grows after) {σ : TypeVar → Ty}
    {ρ : String → Ty} (hafter : after.Values σ ρ) : before.Values σ ρ :=
  fun name v hv => hafter name v (h.names name v hv)

end Grows

theorem run_get (naming : Naming) : (get : StateM Naming Naming).run naming = (naming, naming) :=
  rfl

theorem run_named_of_some {naming : Naming} {name : String} {v : TypeVar}
    (h : naming.names.get? name = some v) : (named name).run naming = (v, naming) := by
  rw [named, run_bind, run_get]
  simp only [h]
  rfl

theorem run_named_of_none {naming : Naming} {name : String}
    (h : naming.names.get? name = none) :
    (named name).run naming = (⟨naming.next, some name⟩,
      ⟨naming.names.insert name ⟨naming.next, some name⟩, naming.next + 1⟩) := by
  rw [named, run_bind, run_get]
  simp only [h]
  rfl

theorem grows_advance (naming : Naming) : naming.Grows { naming with next := naming.next + 1 } :=
  ⟨Nat.le_succ _, fun _ _ h => h, fun h name v hv => Nat.lt_succ_of_lt (h name v hv)⟩

theorem grows_named (naming : Naming) (name : String) :
    naming.Grows ((named name).run naming).2 := by
  cases h : naming.names.get? name with
  | some v =>
      rw [run_named_of_some h]
      exact .refl naming
  | none =>
      rw [run_named_of_none h]
      refine ⟨Nat.le_succ _, ?_, ?_⟩
      · intro other v hv
        rw [Table.get?_insert, if_neg]
        · exact hv
        · rintro rfl
          rw [h] at hv
          cases hv
      · intro hbelow other v hv
        rw [Table.get?_insert] at hv
        split at hv
        · cases hv
          exact Nat.lt_succ_self _
        · exact Nat.lt_succ_of_lt (hbelow other v hv)

/-- The variable of a name is the one that the name keeps. -/
theorem get?_named (naming : Naming) (name : String) :
    ((named name).run naming).2.names.get? name = some ((named name).run naming).1 := by
  cases h : naming.names.get? name with
  | some v => rw [run_named_of_some h, h]
  | none => simp [run_named_of_none h]

end Naming

namespace TypeTerm

/-! ## Numbers and names -/

mutual

theorem grows_lower : (term : TypeTerm) → (naming : Naming) →
    naming.Grows (term.lower.run naming).2
  | .var name, naming => by
      rw [lower, run_bind]
      exact naming.grows_named name
  | .con name, naming => by
      rw [lower]
      exact .refl naming
  | .constraint ⟨className, params⟩, naming => by
      rw [lower, run_bind]
      exact grows_lowerAll params naming
  | .qualified context body, naming => by
      rw [lower]
      exact grows_lower body naming
  | .arrow inputs output, naming => by
      rw [lower, run_bind, run_bind]
      exact (grows_lowerAll inputs naming).trans (grows_lower output _)
  | .apply base args, naming => by
      rw [lower, run_bind, run_bind]
      exact (grows_lower base naming).trans (grows_lowerAll args _)
  | .list element, naming => by
      rw [lower, run_bind]
      exact grows_lower element naming
  | .tuple elements, naming => by
      rw [lower, run_bind]
      exact grows_lowerAll elements naming
  | .data name cases, naming => by
      rw [lower]
      exact .refl naming
  | .conditional condition yes no, naming => by
      rw [lower, run_bind]
      exact naming.grows_advance

theorem grows_lowerAll : (terms : List TypeTerm) → (naming : Naming) →
    naming.Grows ((lowerAll terms).run naming).2
  | [], naming => by
      rw [lowerAll]
      exact .refl naming
  | term :: rest, naming => by
      rw [lowerAll, run_bind, run_bind]
      exact (grows_lower term naming).trans (grows_lowerAll rest _)

end

mutual

theorem below_lower : (term : TypeTerm) → (naming : Naming) → naming.Below →
    (term.lower.run naming).1.Below (term.lower.run naming).2.next
  | .var name, naming, h => by
      rw [lower, run_bind]
      exact Ty.all_var.mpr ((naming.grows_named name).below h name _ (naming.get?_named name))
  | .con name, naming, h => Ty.all_con
  | .constraint ⟨className, params⟩, naming, h => by
      rw [lower, run_bind]
      exact Ty.all_app.mpr ⟨Ty.all_con, below_lowerAll params naming h⟩
  | .qualified context body, naming, h => by
      rw [lower]
      exact below_lower body naming h
  | .arrow inputs output, naming, h => by
      rw [lower, run_bind, run_bind]
      have hgrows := grows_lowerAll inputs naming
      have houtput := grows_lower output ((lowerAll inputs).run naming).2
      exact Ty.all_curried
        (fun t ht => (below_lowerAll inputs naming h t ht).of_le houtput.next_le)
        (below_lower output _ (hgrows.below h))
  | .apply base args, naming, h => by
      rw [lower, run_bind, run_bind]
      have hgrows := grows_lower base naming
      have hargs := grows_lowerAll args (base.lower.run naming).2
      exact Ty.all_app.mpr ⟨(below_lower base naming h).of_le hargs.next_le,
        below_lowerAll args _ (hgrows.below h)⟩
  | .list element, naming, h => by
      rw [lower, run_bind]
      exact Ty.all_list.mpr (below_lower element naming h)
  | .tuple elements, naming, h => by
      rw [lower, run_bind]
      exact Ty.all_tuple.mpr (below_lowerAll elements naming h)
  | .data name cases, naming, h => Ty.all_con
  | .conditional condition yes no, naming, h => by
      rw [lower, run_bind]
      exact Ty.all_var.mpr (Nat.lt_succ_self _)

theorem below_lowerAll : (terms : List TypeTerm) → (naming : Naming) → naming.Below →
    ∀ t ∈ ((lowerAll terms).run naming).1, t.Below ((lowerAll terms).run naming).2.next
  | [], naming, h => by
      rw [lowerAll, run_pure]
      simp
  | term :: rest, naming, h => by
      rw [lowerAll, run_bind, run_bind]
      have hgrows := grows_lower term naming
      have hrest := grows_lowerAll rest (term.lower.run naming).2
      refine List.forall_mem_cons.mpr ⟨?_, ?_⟩
      · exact (below_lower term naming h).of_le hrest.next_le
      · exact below_lowerAll rest _ (hgrows.below h)

end

/-! ## Every replacement is an instance -/

mutual

theorem instance_lower {σ : TypeVar → Ty} {ρ : String → Ty} :
    (term : TypeTerm) → (naming : Naming) → (term.lower.run naming).2.Values σ ρ →
      term.Instance ρ ((term.lower.run naming).1.subst σ)
  | .var name, naming, h => by
      rw [lower, run_bind] at h ⊢
      have hvalue : σ _ = ρ name := h name _ (naming.get?_named name)
      show Instance ρ (.var name) (σ _)
      rw [hvalue]
      exact .var name
  | .con name, naming, _ => .con name
  | .constraint ⟨className, params⟩, naming, h => by
      rw [lower, run_bind] at h ⊢
      rw [run_pure, Ty.subst]
      exact .constraint (instances_lowerAll params naming h)
  | .qualified context body, naming, h => by
      rw [lower] at h ⊢
      exact .qualified (instance_lower body naming h)
  | .arrow inputs output, naming, h => by
      rw [lower, run_bind, run_bind] at h ⊢
      rw [run_pure, Ty.subst_curried, ← Ty.substAll_eq_map]
      have hinputs := (grows_lower output ((lowerAll inputs).run naming).2).values h
      exact .arrow (instances_lowerAll inputs naming hinputs) (instance_lower output _ h)
  | .apply base args, naming, h => by
      rw [lower, run_bind, run_bind] at h ⊢
      rw [run_pure, Ty.subst]
      have hbase := (grows_lowerAll args (base.lower.run naming).2).values h
      exact .apply (instance_lower base naming hbase) (instances_lowerAll args _ h)
  | .list element, naming, h => by
      rw [lower, run_bind] at h ⊢
      exact .list (instance_lower element naming h)
  | .tuple elements, naming, h => by
      rw [lower, run_bind] at h ⊢
      rw [run_pure, Ty.subst]
      exact .tuple (instances_lowerAll elements naming h)
  | .data name cases, naming, _ => .data name cases
  | .conditional condition yes no, naming, _ => .conditional condition yes no _

theorem instances_lowerAll {σ : TypeVar → Ty} {ρ : String → Ty} :
    (terms : List TypeTerm) → (naming : Naming) →
      ((lowerAll terms).run naming).2.Values σ ρ →
        Instances ρ terms (Ty.substAll σ ((lowerAll terms).run naming).1)
  | [], naming, _ => by
      rw [lowerAll, run_pure]
      exact .nil
  | term :: rest, naming, h => by
      rw [lowerAll, run_bind, run_bind] at h ⊢
      rw [run_pure, Ty.substAll]
      have hterm := (grows_lowerAll rest (term.lower.run naming).2).values h
      exact .cons (instance_lower term naming hterm) (instances_lowerAll rest _ h)

end

/-! ## Every instance is a replacement -/

/-- A row of types does not see a change of the valuation above its variables. -/
theorem substAll_eq_of_extendsFrom {n : Nat} {θ θ' : TypeVar → Ty} (h : ExtendsFrom n θ θ')
    {ts : List Ty} (hts : ∀ t ∈ ts, t.Below n) : Ty.substAll θ' ts = Ty.substAll θ ts := by
  rw [Ty.substAll_eq_map, Ty.substAll_eq_map]
  exact List.map_congr_left fun t ht => h.subst_eq (hts t ht)

theorem exists_values_named (naming : Naming) (name : String) {θ : TypeVar → Ty}
    {ρ : String → Ty} (hbelow : naming.Below) (hvalues : naming.Values θ ρ) :
    ∃ θ', ExtendsFrom naming.next θ θ' ∧ ((Naming.named name).run naming).2.Values θ' ρ := by
  cases hname : naming.names.get? name with
  | some v =>
      rw [Naming.run_named_of_some hname]
      exact ⟨θ, .refl _ θ, hvalues⟩
  | none =>
      rw [Naming.run_named_of_none hname]
      refine ⟨extendAt naming.next (ρ name) θ, extendsFrom_extendAt _ _ _, ?_⟩
      intro other v hv
      rw [Table.get?_insert] at hv
      split at hv
      · next heq =>
          cases hv
          rw [extendAt_self, heq]
      · rw [extendsFrom_extendAt _ _ _ v (hbelow other v hv)]
        exact hvalues other v hv

mutual

theorem exists_values_lower {ρ : String → Ty} :
    {term : TypeTerm} → {τ : Ty} → term.Instance ρ τ → (naming : Naming) →
      (θ : TypeVar → Ty) → naming.Below → naming.Values θ ρ →
        ∃ θ', ExtendsFrom naming.next θ θ' ∧ (term.lower.run naming).1.subst θ' = τ ∧
          (term.lower.run naming).2.Values θ' ρ
  | _, _, .var name, naming, θ, hbelow, hvalues => by
      obtain ⟨θ', hextends, hvalues'⟩ := exists_values_named naming name hbelow hvalues
      rw [lower, run_bind]
      exact ⟨θ', hextends, hvalues' name _ (naming.get?_named name), hvalues'⟩
  | _, _, .con name, naming, θ, _, hvalues => by
      rw [lower]
      exact ⟨θ, .refl _ θ, rfl, hvalues⟩
  | _, _, @Instance.constraint _ className params args h, naming, θ, hbelow, hvalues => by
      obtain ⟨θ', hextends, heq, hvalues'⟩ := exists_values_lowerAll h naming θ hbelow hvalues
      rw [lower, run_bind, run_pure]
      refine ⟨θ', hextends, ?_, hvalues'⟩
      rw [Ty.subst, heq, Ty.subst]
  | _, _, .qualified h, naming, θ, hbelow, hvalues => by
      rw [lower]
      exact exists_values_lower h naming θ hbelow hvalues
  | _, _, @Instance.arrow _ inputs output ts t hinputs houtput, naming, θ, hbelow, hvalues => by
      have hgrows := grows_lowerAll inputs naming
      obtain ⟨θ₁, hextends₁, heq₁, hvalues₁⟩ :=
        exists_values_lowerAll hinputs naming θ hbelow hvalues
      obtain ⟨θ₂, hextends₂, heq₂, hvalues₂⟩ :=
        exists_values_lower houtput _ θ₁ (hgrows.below hbelow) hvalues₁
      refine ⟨θ₂, hextends₁.trans hextends₂ hgrows.next_le, ?_, ?_⟩
      · rw [lower, run_bind, run_bind, run_pure, Ty.subst_curried, ← Ty.substAll_eq_map, heq₂,
          substAll_eq_of_extendsFrom hextends₂ (below_lowerAll inputs naming hbelow), heq₁]
      · rw [lower, run_bind, run_bind]
        exact hvalues₂
  | _, _, @Instance.apply _ base args t ts hbase hargs, naming, θ, hbelow, hvalues => by
      have hgrows := grows_lower base naming
      obtain ⟨θ₁, hextends₁, heq₁, hvalues₁⟩ := exists_values_lower hbase naming θ hbelow hvalues
      obtain ⟨θ₂, hextends₂, heq₂, hvalues₂⟩ :=
        exists_values_lowerAll hargs _ θ₁ (hgrows.below hbelow) hvalues₁
      refine ⟨θ₂, hextends₁.trans hextends₂ hgrows.next_le, ?_, ?_⟩
      · rw [lower, run_bind, run_bind, run_pure, Ty.subst, heq₂,
          hextends₂.subst_eq (below_lower base naming hbelow), heq₁]
      · rw [lower, run_bind, run_bind]
        exact hvalues₂
  | _, _, .list h, naming, θ, hbelow, hvalues => by
      obtain ⟨θ', hextends, heq, hvalues'⟩ := exists_values_lower h naming θ hbelow hvalues
      rw [lower, run_bind, run_pure]
      refine ⟨θ', hextends, ?_, hvalues'⟩
      rw [Ty.subst, heq]
  | _, _, .tuple h, naming, θ, hbelow, hvalues => by
      obtain ⟨θ', hextends, heq, hvalues'⟩ := exists_values_lowerAll h naming θ hbelow hvalues
      rw [lower, run_bind, run_pure]
      refine ⟨θ', hextends, ?_, hvalues'⟩
      rw [Ty.subst, heq]
  | _, _, .data name cases, naming, θ, _, hvalues => by
      rw [lower]
      exact ⟨θ, .refl _ θ, rfl, hvalues⟩
  | _, _, .conditional condition yes no t, naming, θ, hbelow, hvalues => by
      refine ⟨extendAt naming.next t θ, extendsFrom_extendAt _ _ _, ?_, ?_⟩
      · rw [lower, run_bind]
        exact extendAt_self _ _ _ _
      · rw [lower, run_bind]
        intro name v hv
        rw [extendsFrom_extendAt _ _ _ v (hbelow name v hv)]
        exact hvalues name v hv

theorem exists_values_lowerAll {ρ : String → Ty} :
    {terms : List TypeTerm} → {τs : List Ty} → Instances ρ terms τs → (naming : Naming) →
      (θ : TypeVar → Ty) → naming.Below → naming.Values θ ρ →
        ∃ θ', ExtendsFrom naming.next θ θ' ∧
          Ty.substAll θ' ((lowerAll terms).run naming).1 = τs ∧
          ((lowerAll terms).run naming).2.Values θ' ρ
  | _, _, .nil, naming, θ, _, hvalues => by
      rw [lowerAll]
      exact ⟨θ, .refl _ θ, rfl, hvalues⟩
  | _, _, @Instances.cons _ term rest t ts h hrest, naming, θ, hbelow, hvalues => by
      have hgrows := grows_lower term naming
      obtain ⟨θ₁, hextends₁, heq₁, hvalues₁⟩ := exists_values_lower h naming θ hbelow hvalues
      obtain ⟨θ₂, hextends₂, heq₂, hvalues₂⟩ :=
        exists_values_lowerAll hrest _ θ₁ (hgrows.below hbelow) hvalues₁
      refine ⟨θ₂, hextends₁.trans hextends₂ hgrows.next_le, ?_, ?_⟩
      · rw [lowerAll, run_bind, run_bind, run_pure, Ty.substAll, heq₂,
          hextends₂.subst_eq (below_lower term naming hbelow), heq₁]
      · rw [lowerAll, run_bind, run_bind]
        exact hvalues₂

end

end TypeTerm

/-! ## Signatures -/

namespace Signature

variable (signature : Signature) (naming : Naming)

theorem grows_lower : naming.Grows (signature.lower.run naming).2 :=
  (TypeTerm.grows_lowerAll signature.inputs naming).trans (signature.output.grows_lower _)

theorem below_lower (h : naming.Below) :
    (∀ t ∈ (signature.lower.run naming).1.1, t.Below (signature.lower.run naming).2.next) ∧
      (signature.lower.run naming).1.2.Below (signature.lower.run naming).2.next := by
  have hinputs := TypeTerm.grows_lowerAll signature.inputs naming
  have houtput := signature.output.grows_lower
    ((TypeTerm.lowerAll signature.inputs).run naming).2
  refine ⟨?_, signature.output.below_lower _ (hinputs.below h)⟩
  intro t ht
  exact (TypeTerm.below_lowerAll signature.inputs naming h t ht).of_le houtput.next_le

theorem instances_lower {σ : TypeVar → Ty} {ρ : String → Ty}
    (h : (signature.lower.run naming).2.Values σ ρ) :
    TypeTerm.Instances ρ signature.inputs (Ty.substAll σ (signature.lower.run naming).1.1) ∧
      signature.output.Instance ρ ((signature.lower.run naming).1.2.subst σ) := by
  have houtput := signature.output.grows_lower
    ((TypeTerm.lowerAll signature.inputs).run naming).2
  exact ⟨TypeTerm.instances_lowerAll signature.inputs naming (houtput.values h),
    TypeTerm.instance_lower signature.output _ h⟩

theorem exists_values_lower {ρ : String → Ty} {inputs : List Ty} {output : Ty}
    (hinputs : TypeTerm.Instances ρ signature.inputs inputs)
    (houtput : signature.output.Instance ρ output) {θ : TypeVar → Ty} (hbelow : naming.Below)
    (hvalues : naming.Values θ ρ) :
    ∃ θ', ExtendsFrom naming.next θ θ' ∧
      Ty.substAll θ' (signature.lower.run naming).1.1 = inputs ∧
      (signature.lower.run naming).1.2.subst θ' = output := by
  have hgrows := TypeTerm.grows_lowerAll signature.inputs naming
  obtain ⟨θ₁, hextends₁, heq₁, hvalues₁⟩ :=
    TypeTerm.exists_values_lowerAll hinputs naming θ hbelow hvalues
  obtain ⟨θ₂, hextends₂, heq₂, _⟩ :=
    TypeTerm.exists_values_lower houtput _ θ₁ (hgrows.below hbelow) hvalues₁
  refine ⟨θ₂, hextends₁.trans hextends₂ hgrows.next_le, ?_, heq₂⟩
  rw [← heq₁]
  exact TypeTerm.substAll_eq_of_extendsFrom hextends₂
    (TypeTerm.below_lowerAll signature.inputs naming hbelow)

end Signature

theorem below_no_names (n : Nat) : (⟨{}, n⟩ : Naming).Below := by
  intro name v hv
  cases hv

end Rubric
