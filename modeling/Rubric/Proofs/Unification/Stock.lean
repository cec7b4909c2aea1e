import Mathlib.Data.Finset.Card
import Rubric.Proofs.Unification.Derivation

/-!
# The types a search can meet

Unification solves variables on the way, so the types it meets grow. They are all
instances of a fixed stock of types, though: the subterms of the two types and of the
alias bodies, and the applications among them with an alias body put in at the head.
The stock is closed under taking components and under expansion, and so are its
instances under every substitution that was built from instances.
-/

namespace Rubric

namespace Substitution

/-- A valuation followed by a substitution. -/
def after (s : Substitution) (σ : TypeVar → Ty) : TypeVar → Ty :=
  fun v => (σ v).subst s.image

theorem subst_after (s : Substitution) (σ : TypeVar → Ty) (t : Ty) :
    t.subst (s.after σ) = (t.subst σ).subst s.image :=
  (Ty.subst_subst σ s.image t).symm

theorem after_of_free {s : Substitution} (h : ∀ v, s.get? v = none) (σ : TypeVar → Ty) :
    s.after σ = σ := by
  funext v
  exact Ty.subst_eq_self fun w _ => image_of_free (h w)

theorem compose_after {first second : Substitution} (h : second.Idempotent) (σ : TypeVar → Ty) :
    (first.compose second).after σ = second.after (first.after σ) := by
  funext v
  simp only [after, Ty.subst_subst]
  exact Ty.subst_congr fun w _ => image_compose h w

end Substitution

namespace Unification

/-- A list of types that is closed under components and under putting an alias body at
the head of an application. -/
structure Stock (aliases : Aliases) (stock : List Ty) : Prop where
  child : ∀ t ∈ stock, ∀ c ∈ t.children, c ∈ stock
  body : ∀ name body, aliases.get? name = some body → body ∈ stock
  head : ∀ base args name body, .app base args ∈ stock → aliases.get? name = some body →
    .app body args ∈ stock

theorem Stock.erase {aliases : Aliases} {stock : List Ty} (h : Stock aliases stock)
    (name : String) : Stock (aliases.erase name) stock where
  child := h.child
  body := by
    intro n body hbody
    rw [Aliases.get?_erase] at hbody
    split at hbody
    · cases hbody
    · exact h.body n body hbody
  head := by
    intro base args n body hmem hbody
    rw [Aliases.get?_erase] at hbody
    split at hbody
    · cases hbody
    · exact h.head base args n body hmem hbody

/-! ## Instances -/

/-- The types of a stock under a valuation. -/
def instances (stock : List Ty) (σ : TypeVar → Ty) : Finset Ty :=
  (stock.map (Ty.subst σ)).toFinset

theorem mem_instances {stock : List Ty} {σ : TypeVar → Ty} {a : Ty} :
    a ∈ instances stock σ ↔ ∃ t ∈ stock, t.subst σ = a := by
  simp [instances]

theorem card_instances_le (stock : List Ty) (σ : TypeVar → Ty) :
    (instances stock σ).card ≤ stock.length := by
  simpa [instances] using List.toFinset_card_le (stock.map (Ty.subst σ))

theorem mem_instances_after {stock : List Ty} {σ : TypeVar → Ty} {s : Substitution}
    (hs : s.Idempotent) {a : Ty} (h : a ∈ instances stock σ) :
    s.apply a ∈ instances stock (s.after σ) := by
  obtain ⟨t, ht, rfl⟩ := mem_instances.mp h
  exact mem_instances.mpr ⟨t, ht, by rw [Substitution.subst_after, hs.apply_eq]⟩

/-- A valuation gives every variable another variable or an instance of a type in the
stock. -/
def Rooted (stock : List Ty) (σ : TypeVar → Ty) : Prop :=
  ∀ v, (σ v).isVar = true ∨ ∃ t ∈ stock, t.isVar = false ∧ t.subst σ = σ v

theorem rooted_var (stock : List Ty) : Rooted stock .var :=
  fun _ => .inl rfl

section Closure

variable {aliases : Aliases} {stock : List Ty} {σ : TypeVar → Ty}

/-- An instance that is no variable is one of a type that is no variable. -/
theorem Rooted.pattern (hroot : Rooted stock σ) {a : Ty} (ha : a ∈ instances stock σ)
    (hvar : a.isVar = false) : ∃ t ∈ stock, t.isVar = false ∧ t.subst σ = a := by
  obtain ⟨t, ht, rfl⟩ := mem_instances.mp ha
  cases htvar : t.isVar with
  | false => exact ⟨t, ht, htvar, rfl⟩
  | true =>
      obtain ⟨v, rfl⟩ := Ty.isVar_iff.mp htvar
      rcases hroot v with hv | ⟨u, hu, huvar, heq⟩
      · simp only [Ty.subst] at hvar
        simp [hv] at hvar
      · exact ⟨u, hu, huvar, heq⟩

theorem mem_instances_child (hstock : Stock aliases stock) (hroot : Rooted stock σ) {a c : Ty}
    (ha : a ∈ instances stock σ) (hc : c ∈ a.children) : c ∈ instances stock σ := by
  obtain ⟨t, ht, htvar, rfl⟩ := hroot.pattern ha (Ty.isVar_of_mem_children hc)
  rw [Ty.children_subst σ htvar] at hc
  obtain ⟨d, hd, rfl⟩ := List.mem_map.mp hc
  exact mem_instances.mpr ⟨d, hstock.child t ht d hd, rfl⟩

/-- Every variable inside an instance is itself an instance. -/
theorem all_mem_instances (hstock : Stock aliases stock) (hroot : Rooted stock σ) {a : Ty}
    (ha : a ∈ instances stock σ) : a.All fun v => .var v ∈ instances stock σ := by
  intro v hv
  induction a using Ty.childInduction with
  | step a ih =>
      rcases Ty.occurs_iff_children.mp hv with rfl | ⟨c, hc, hv⟩
      · exact ha
      · exact ih c hc (mem_instances_child hstock hroot ha hc) hv

theorem mem_instances_unfoldHead (hfree : aliases.VarFree) (hstock : Stock aliases stock)
    (hroot : Rooted stock σ) {a a' : Ty} {name : String} (ha : a ∈ instances stock σ)
    (hhead : aliases.unfoldHead a = some (name, a')) : a' ∈ instances stock σ := by
  obtain ⟨body, hbody, ⟨rfl, rfl⟩ | ⟨args, rfl, rfl⟩⟩ := Aliases.unfoldHead_cases hhead
  · exact mem_instances.mpr ⟨_, hstock.body name _ hbody, (hfree name _ hbody).subst_eq σ⟩
  · obtain ⟨t, ht, htvar, hta⟩ := hroot.pattern ha rfl
    cases t with
    | app base args' =>
        simp only [Ty.subst, Ty.substAll_eq_map, Ty.app.injEq] at hta
        refine mem_instances.mpr ⟨.app body args', hstock.head _ _ _ _ ht hbody, ?_⟩
        simp only [Ty.subst, Ty.substAll_eq_map, (hfree name body hbody).subst_eq σ, hta.2]
    | var v => simp [Ty.isVar] at htvar
    | _ => simp at hta

theorem mem_instances_expand (hfree : aliases.VarFree) (hstock : Stock aliases stock)
    (hroot : Rooted stock σ) {a : Ty} (ha : a ∈ instances stock σ) :
    aliases.expand a ∈ instances stock σ := by
  have hwithin : ∀ steps (aliases : Aliases) a, aliases.VarFree → Stock aliases stock →
      a ∈ instances stock σ → Aliases.expandWithin steps aliases a ∈ instances stock σ := by
    intro steps
    induction steps with
    | zero => exact fun _ _ _ _ ha => ha
    | succ steps ih =>
        intro aliases a hfree hstock ha
        unfold Aliases.expandWithin
        split
        · exact ha
        · next name a' hhead =>
            exact ih _ _ (Aliases.All.erase hfree name) (hstock.erase name)
              (mem_instances_unfoldHead hfree hstock hroot ha hhead)
  exact hwithin _ _ _ hfree hstock ha

/-! ## Unifiers of instances -/

/-- Binding a variable to an instance keeps every variable an instance of the stock. -/
theorem Rooted.singleton (hroot : Rooted stock σ) {v : TypeVar} {t : Ty}
    (ht : t ∈ instances stock σ) (hocc : t.occurs v = false) :
    Rooted stock ((Substitution.singleton v t).after σ) := by
  have hfix : t.subst (Substitution.singleton v t).image = t := by
    apply Ty.subst_eq_self
    intro w hw
    apply Substitution.image_of_free
    rw [Substitution.get?_singleton, if_neg]
    rintro rfl
    simp [hocc] at hw
  intro u
  rcases hroot u with hu | ⟨p, hp, hpvar, heq⟩
  · obtain ⟨x, hx⟩ := Ty.isVar_iff.mp hu
    by_cases hxv : v = x
    · subst hxv
      have himage : (Substitution.singleton v t).after σ u = t := by
        simp [Substitution.after, hx, Substitution.image]
      rw [himage]
      cases htvar : t.isVar with
      | true => exact .inl rfl
      | false =>
          obtain ⟨p, hp, hpvar, rfl⟩ := hroot.pattern ht htvar
          exact .inr ⟨p, hp, hpvar, by rw [Substitution.subst_after, hfix]⟩
    · left
      simp [Substitution.after, hx, Substitution.image, hxv, Ty.isVar]
  · right
    refine ⟨p, hp, hpvar, ?_⟩
    rw [Substitution.subst_after, heq]
    rfl

mutual

theorem Unified.rooted (hfree : aliases.VarFree) (hstock : Stock aliases stock) :
    {a b : Ty} → {s : Substitution} → Unified aliases a b s → (σ : TypeVar → Ty) →
      Rooted stock σ → a ∈ instances stock σ → b ∈ instances stock σ →
        Rooted stock (s.after σ)
  | _, _, _, .same _, σ, hroot, _, _ => by
      rwa [Substitution.after_of_free Substitution.get?_empty]
  | _, _, _, .left h, _, hroot, _, hb => hroot.singleton hb h
  | _, _, _, .right h, _, hroot, ha, _ => hroot.singleton ha h
  | _, _, _, .name _, σ, hroot, _, _ => by
      rwa [Substitution.after_of_free Substitution.get?_empty]
  | _, _, _, .expand h, σ, hroot, ha, hb =>
      h.rooted hfree hstock σ hroot (mem_instances_expand hfree hstock hroot ha)
        (mem_instances_expand hfree hstock hroot hb)
  | _, _, _, .parts _ h, σ, hroot, ha, hb => by
      refine h.rooted hfree hstock σ Substitution.idempotent_empty ?_ hroot ?_
      · rwa [Substitution.after_of_free Substitution.get?_empty]
      · intro pair hpair
        obtain ⟨hleft, hright⟩ := List.of_mem_zip hpair
        exact ⟨mem_instances_child hstock hroot ha hleft,
          mem_instances_child hstock hroot hb hright⟩

theorem UnifiedEach.rooted (hfree : aliases.VarFree) (hstock : Stock aliases stock) :
    {pairs : List (Ty × Ty)} → {found s : Substitution} → UnifiedEach aliases pairs found s →
      (σ : TypeVar → Ty) → found.Idempotent → Rooted stock (found.after σ) →
        Rooted stock σ →
        (∀ pair ∈ pairs, pair.1 ∈ instances stock σ ∧ pair.2 ∈ instances stock σ) →
          Rooted stock (s.after σ)
  | _, _, _, .nil _, _, _, hroot, _, _ => hroot
  | _, _, _, .cons h hrest, σ, hfound, hroot, hbase, hpairs => by
      rw [List.forall_mem_cons] at hpairs
      obtain ⟨⟨ha, hb⟩, hpairs⟩ := hpairs
      have hmore := h.idempotent hfree
      have hnext := h.rooted hfree hstock _ hroot (mem_instances_after hfound ha)
        (mem_instances_after hfound hb)
      rw [← Substitution.compose_after hmore] at hnext
      exact hrest.rooted hfree hstock σ (hfound.compose hmore (h.all_free hfree hfound)) hnext
        hbase hpairs

end

end Closure

end Unification

end Rubric
