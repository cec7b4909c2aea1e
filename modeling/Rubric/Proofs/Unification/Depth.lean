import Mathlib.Data.Finset.Prod
import Rubric.Proofs.Unification.Stock

/-!
# The bound on the depth of the search is never reached

Three quantities decide how deep a search can still go: how many variables are left
among the instances of the stock, how many pairs of instances are not being expanded
yet, and how many instances are smaller than the type at hand. Solving a variable lowers
the first, expanding lowers the second and keeps the first, and going down to a
component lowers the third and keeps the others. Their combination stays below the
bound that the search starts with, whatever the aliases refer to, as long as their
bodies have no variables.
-/

namespace Rubric

namespace Unification

/-! ## Quantities -/

/-- The variables left among the instances of a stock. -/
def unsolved (stock : List Ty) (σ : TypeVar → Ty) : Finset Ty :=
  (instances stock σ).filter fun t => t.isVar = true

/-- The pairs of instances that are not being expanded. -/
def unexpanded (stock : List Ty) (σ : TypeVar → Ty) (expanding : List (Ty × Ty)) :
    Finset (Ty × Ty) :=
  (instances stock σ ×ˢ instances stock σ) \ expanding.toFinset

/-- The instances that are smaller than a type. -/
def smaller (stock : List Ty) (σ : TypeVar → Ty) (a : Ty) : Finset Ty :=
  (instances stock σ).filter fun t => t.size < a.size

/-- How deep a search can still go. -/
def weight (stock : List Ty) (σ : TypeVar → Ty) (expanding : List (Ty × Ty)) (a : Ty) : Nat :=
  (unsolved stock σ).card * ((stock.length * stock.length + 1) * (stock.length + 1)) +
    (unexpanded stock σ expanding).card * (stock.length + 1) + (smaller stock σ a).card

theorem card_unexpanded_le (stock : List Ty) (σ : TypeVar → Ty) (expanding : List (Ty × Ty)) :
    (unexpanded stock σ expanding).card ≤ stock.length * stock.length := by
  have hsub : (unexpanded stock σ expanding).card ≤
      (instances stock σ ×ˢ instances stock σ).card :=
    Finset.card_le_card Finset.sdiff_subset
  rw [Finset.card_product] at hsub
  exact hsub.trans (Nat.mul_le_mul (card_instances_le stock σ) (card_instances_le stock σ))

theorem card_smaller_le (stock : List Ty) (σ : TypeVar → Ty) (a : Ty) :
    (smaller stock σ a).card ≤ stock.length :=
  (Finset.card_le_card (Finset.filter_subset _ _)).trans (card_instances_le stock σ)

section Decrease

variable {stock : List Ty} {σ : TypeVar → Ty} {a b : Ty}

theorem weight_expand_lt {expanding : List (Ty × Ty)} (ha : a ∈ instances stock σ)
    (hb : b ∈ instances stock σ) (hnew : (a, b) ∉ expanding) (c : Ty) :
    weight stock σ ((a, b) :: expanding) c < weight stock σ expanding a := by
  have hlt : (unexpanded stock σ ((a, b) :: expanding)).card <
      (unexpanded stock σ expanding).card := by
    apply Finset.card_lt_card
    rw [Finset.ssubset_iff_of_subset]
    · refine ⟨(a, b), ?_, ?_⟩
      · exact Finset.mem_sdiff.mpr ⟨Finset.mem_product.mpr ⟨ha, hb⟩,
          fun h => hnew (List.mem_toFinset.mp h)⟩
      · intro h
        exact (Finset.mem_sdiff.mp h).2 (by simp)
    · apply Finset.sdiff_subset_sdiff (Finset.Subset.refl _)
      intro pair hpair
      rw [List.mem_toFinset] at hpair ⊢
      exact List.mem_cons_of_mem _ hpair
  have hmul := Nat.mul_le_mul_right (stock.length + 1) hlt
  have hsmall := card_smaller_le stock σ c
  rw [Nat.succ_mul] at hmul
  unfold weight
  omega

theorem weight_child_lt (expanding : List (Ty × Ty)) {c : Ty} (hc : c ∈ a.children)
    (hmem : c ∈ instances stock σ) :
    weight stock σ expanding c < weight stock σ expanding a := by
  have hsize := Ty.size_lt_of_mem_children hc
  have hlt : (smaller stock σ c).card < (smaller stock σ a).card := by
    apply Finset.card_lt_card
    rw [Finset.ssubset_iff_of_subset]
    · refine ⟨c, Finset.mem_filter.mpr ⟨hmem, hsize⟩, ?_⟩
      intro h
      exact Nat.lt_irrefl _ (Finset.mem_filter.mp h).2
    · intro t ht
      obtain ⟨hinst, hlt⟩ := Finset.mem_filter.mp ht
      exact Finset.mem_filter.mpr ⟨hinst, Nat.lt_trans hlt hsize⟩
  unfold weight
  omega

theorem weight_solve_lt (expanding : List (Ty × Ty)) (a : Ty) {σ' : TypeVar → Ty}
    (hsolved : (unsolved stock σ').card < (unsolved stock σ).card) (c : Ty) :
    weight stock σ' expanding c < weight stock σ expanding a := by
  have hmul := Nat.mul_le_mul_right
    ((stock.length * stock.length + 1) * (stock.length + 1)) hsolved
  have hpairs := Nat.mul_le_mul_right (stock.length + 1) (card_unexpanded_le stock σ' expanding)
  have hsmall := card_smaller_le stock σ' c
  rw [Nat.succ_mul] at hmul
  have hround : (stock.length * stock.length + 1) * (stock.length + 1) =
      stock.length * stock.length * (stock.length + 1) + (stock.length + 1) :=
    Nat.succ_mul _ _
  unfold weight
  omega

end Decrease

/-- A substitution that binds a variable among the instances leaves fewer variables. -/
theorem card_unsolved_lt {aliases : Aliases} {stock : List Ty} {σ : TypeVar → Ty}
    (hstock : Stock aliases stock) (hroot : Rooted stock σ) {s : Substitution}
    (hs : s.Idempotent) (hall : s.All fun v => .var v ∈ instances stock σ) {v : TypeVar} {t : Ty}
    (hv : s.get? v = some t) :
    (unsolved stock (s.after σ)).card < (unsolved stock σ).card := by
  apply Finset.card_lt_card
  rw [Finset.ssubset_iff_of_subset]
  · refine ⟨.var v, Finset.mem_filter.mpr ⟨(hall v t hv).1, rfl⟩, ?_⟩
    intro hmem
    obtain ⟨p, _, heq⟩ := mem_instances.mp (Finset.mem_filter.mp hmem).1
    rw [Substitution.subst_after, ← hs.apply_eq] at heq
    have hfree := hs.all_apply (p.subst σ)
    rw [heq, Ty.all_var, hv] at hfree
    cases hfree
  · intro u hu
    obtain ⟨hmem, hvar⟩ := Finset.mem_filter.mp hu
    obtain ⟨w, rfl⟩ := Ty.isVar_iff.mp hvar
    obtain ⟨p, hp, heq⟩ := mem_instances.mp hmem
    rw [Substitution.subst_after, ← hs.apply_eq] at heq
    have hinst := hall.apply (all_mem_instances hstock hroot (mem_instances.mpr ⟨p, hp, rfl⟩))
    rw [heq, Ty.all_var] at hinst
    exact Finset.mem_filter.mpr ⟨hinst, rfl⟩

/-! ## Every search ends -/

section Ends

variable {aliases : Aliases} {stock : List Ty}

/-- Unifying pairs of components ends if each of the searches does that it can start: the
first ones under the same valuation, later ones with fewer variables left. -/
theorem ends_unifyEach (hfree : aliases.VarFree) (hstock : Stock aliases stock)
    {σ : TypeVar → Ty} (hroot : Rooted stock σ) {a : Ty}
    {unify : Ty → Ty → Search Substitution}
    (hfinds : ∀ x y s, (unify x y).Finds s → Unified aliases x y s)
    (hchild : ∀ x y, x ∈ a.children → x ∈ instances stock σ → y ∈ instances stock σ →
      (unify x y).Ends)
    (hlater : ∀ σ' x y, Rooted stock σ' →
      (unsolved stock σ').card < (unsolved stock σ).card →
      x ∈ instances stock σ' → y ∈ instances stock σ' → (unify x y).Ends)
    {pairs : List (Ty × Ty)}
    (hpairs : ∀ pair ∈ pairs,
      pair.1 ∈ a.children ∧ pair.1 ∈ instances stock σ ∧ pair.2 ∈ instances stock σ)
    {found : Substitution} (hfound : found.Idempotent)
    (hall : found.All fun v => .var v ∈ instances stock σ)
    (hafter : Rooted stock (found.after σ)) : (unifyEach unify pairs found).Ends := by
  induction pairs generalizing found with
  | nil => simp [unifyEach]
  | cons pair rest ih =>
      obtain ⟨x, y⟩ := pair
      rw [List.forall_mem_cons] at hpairs
      obtain ⟨⟨hx, hxmem, hymem⟩, hpairs⟩ := hpairs
      have hxafter := mem_instances_after hfound hxmem
      have hyafter := mem_instances_after hfound hymem
      simp only [unifyEach, Search.ends_bind]
      constructor
      · by_cases hnone : ∀ v, found.get? v = none
        · have hfix : ∀ t, found.apply t = t := by
            intro t
            rw [hfound.apply_eq]
            exact Ty.subst_eq_self fun w _ => Substitution.image_of_free (hnone w)
          rw [hfix, hfix]
          exact hchild x y hx hxmem hymem
        · obtain ⟨v, hv⟩ := not_forall.mp hnone
          obtain ⟨t, ht⟩ := Option.ne_none_iff_exists'.mp hv
          exact hlater _ _ _ hafter (card_unsolved_lt hstock hroot hfound hall ht) hxafter hyafter
      · intro more hmore
        have hunified := hfinds _ _ _ hmore
        have hmoreIdem := hunified.idempotent hfree
        have hmoreAll := hunified.all (hfree.all _)
          (hall.apply (all_mem_instances hstock hroot hxmem))
          (hall.apply (all_mem_instances hstock hroot hymem))
        have hmoreRoot := hunified.rooted hfree hstock _ hafter hxafter hyafter
        rw [← Substitution.compose_after hmoreIdem] at hmoreRoot
        exact ih hpairs (hfound.compose hmoreIdem (hunified.all_free hfree hfound))
          (hall.compose hmoreAll) hmoreRoot

theorem ends_unifyWithin (hfree : aliases.VarFree) (hstock : Stock aliases stock)
    {depth : Nat} {σ : TypeVar → Ty} {expanding : List (Ty × Ty)} {a b : Ty}
    (hroot : Rooted stock σ) (ha : a ∈ instances stock σ) (hb : b ∈ instances stock σ)
    (hdepth : weight stock σ expanding a < depth) :
    (unifyWithin aliases depth expanding a b).Ends := by
  induction depth generalizing σ expanding a b with
  | zero => exact (Nat.not_lt_zero _ hdepth).elim
  | succ depth ih =>
      rcases pair_cases a b with ⟨v, rfl, rfl⟩ | ⟨v, rfl, hne⟩ | ⟨v, havar, rfl⟩ |
        ⟨name, rfl, rfl⟩ | ⟨havar, hbvar, hne⟩
      · rw [unifyWithin_same]
        exact Search.ends_pure
      · rw [unifyWithin_left hne]
        exact ends_binding v b
      · rw [unifyWithin_right havar]
        exact ends_binding v a
      · rw [unifyWithin_name]
        exact Search.ends_pure
      · rw [unifyWithin_heads havar hbvar hne]
        unfold unifyHeads
        dsimp only
        split
        · rw [unifyParts_eq]
          split
          · refine ends_unifyEach hfree hstock hroot (a := a) (fun _ _ _ => Unified.of_finds)
              ?_ ?_ ?_ Substitution.idempotent_empty (Substitution.all_empty _) ?_
            · intro x y hx hxmem hymem
              have hlt := weight_child_lt expanding hx hxmem
              exact ih hroot hxmem hymem (by omega)
            · intro σ' x y hroot' hsolved hxmem hymem
              have hlt := weight_solve_lt expanding a hsolved x
              exact ih hroot' hxmem hymem (by omega)
            · intro pair hpair
              obtain ⟨hleft, hright⟩ := List.of_mem_zip hpair
              exact ⟨hleft, mem_instances_child hstock hroot ha hleft,
                mem_instances_child hstock hroot hb hright⟩
            · rwa [Substitution.after_of_free Substitution.get?_empty]
          · exact Search.ends_throw
        · split
          · exact Search.ends_throw
          · next hnew =>
              have hlt := weight_expand_lt ha hb hnew (aliases.expand a)
              exact ih hroot (mem_instances_expand hfree hstock hroot ha)
                (mem_instances_expand hfree hstock hroot hb) (by omega)

end Ends

/-! ## The stock of a search -/

/-- The subterms of two types and of all alias bodies. -/
def terms (aliases : Aliases) (a b : Ty) : List Ty :=
  a.subterms ++ b.subterms ++ aliases.table.entries.flatMap fun entry => entry.2.subterms

/-- The applications that arise from one by putting alias bodies at its head. -/
def reheaded (aliases : Aliases) : Ty → List Ty
  | .app _ args => aliases.table.entries.map fun entry => .app entry.2 args
  | _ => []

/-- The types that a search for a unifier of two types can meet, up to solving
variables. -/
def stockOf (aliases : Aliases) (a b : Ty) : List Ty :=
  terms aliases a b ++ (terms aliases a b).flatMap (reheaded aliases)

section StockOf

variable {aliases : Aliases} {a b : Ty}

theorem mem_entries {name : String} {body : Ty} (h : aliases.get? name = some body) :
    (name, body) ∈ aliases.table.entries :=
  Table.mem_entries_of_get? h

theorem mem_terms {t : Ty} :
    t ∈ terms aliases a b ↔ t ∈ a.subterms ∨ t ∈ b.subterms ∨
      ∃ entry ∈ aliases.table.entries, t ∈ entry.2.subterms := by
  simp [terms]

theorem mem_terms_child {t c : Ty} (ht : t ∈ terms aliases a b) (hc : c ∈ t.children) :
    c ∈ terms aliases a b := by
  rw [mem_terms] at ht ⊢
  rcases ht with ht | ht | ⟨entry, hentry, ht⟩
  · exact .inl (Ty.mem_subterms_of_mem_children ht hc)
  · exact .inr (.inl (Ty.mem_subterms_of_mem_children ht hc))
  · exact .inr (.inr ⟨entry, hentry, Ty.mem_subterms_of_mem_children ht hc⟩)

theorem mem_stockOf {t : Ty} :
    t ∈ stockOf aliases a b ↔ t ∈ terms aliases a b ∨
      ∃ base args entry, .app base args ∈ terms aliases a b ∧
        entry ∈ aliases.table.entries ∧ t = .app entry.2 args := by
  simp only [stockOf, List.mem_append, List.mem_flatMap]
  refine or_congr_right ⟨?_, ?_⟩
  · rintro ⟨u, hu, ht⟩
    cases u with
    | app base args =>
        obtain ⟨entry, hentry, rfl⟩ := List.mem_map.mp ht
        exact ⟨base, args, entry, hu, hentry, rfl⟩
    | _ => cases ht
  · rintro ⟨base, args, entry, hmem, hentry, rfl⟩
    exact ⟨_, hmem, List.mem_map.mpr ⟨entry, hentry, rfl⟩⟩

theorem stock_stockOf (aliases : Aliases) (a b : Ty) : Stock aliases (stockOf aliases a b) where
  child := by
    intro t ht c hc
    rw [mem_stockOf] at ht ⊢
    left
    rcases ht with ht | ⟨base, args, entry, hmem, hentry, rfl⟩
    · exact mem_terms_child ht hc
    · rcases List.mem_cons.mp hc with rfl | hc
      · exact mem_terms.mpr (.inr (.inr ⟨entry, hentry, Ty.mem_subterms_self _⟩))
      · exact mem_terms_child hmem (List.mem_cons_of_mem _ hc)
  body := by
    intro name body hbody
    refine mem_stockOf.mpr (.inl (mem_terms.mpr (.inr (.inr ?_))))
    exact ⟨(name, body), mem_entries hbody, Ty.mem_subterms_self body⟩
  head := by
    intro base args name body hmem hbody
    refine mem_stockOf.mpr (.inr ?_)
    rcases mem_stockOf.mp hmem with hmem | ⟨base', args', entry, hmem, _, heq⟩
    · exact ⟨base, args, (name, body), hmem, mem_entries hbody, rfl⟩
    · cases heq
      exact ⟨base', args, (name, body), hmem, mem_entries hbody, rfl⟩

theorem length_terms_le (aliases : Aliases) (a b : Ty) :
    (terms aliases a b).length ≤ a.size + b.size + aliases.size := by
  have hentries : ∀ entries : List (String × Ty),
      (entries.flatMap fun entry => entry.2.subterms).length ≤
        entries.foldr (fun entry total => entry.2.size + 1 + total) 0 := by
    intro entries
    induction entries with
    | nil => simp
    | cons entry rest ih =>
        simp only [List.flatMap_cons, List.length_append, List.foldr_cons, Ty.length_subterms]
        omega
  have := hentries aliases.table.entries
  simp only [terms, Aliases.size, List.length_append, Ty.length_subterms]
  omega

theorem length_stockOf_le (aliases : Aliases) (a b : Ty) :
    (stockOf aliases a b).length ≤
      (a.size + b.size + aliases.size) * (aliases.table.size + 1) := by
  have hreheaded : ∀ ts : List Ty, (ts.flatMap (reheaded aliases)).length ≤
      ts.length * aliases.table.size := by
    intro ts
    induction ts with
    | nil => simp
    | cons t rest ih =>
        have ht : (reheaded aliases t).length ≤ aliases.table.size := by
          cases t <;> simp [reheaded, Table.size]
        simp only [List.flatMap_cons, List.length_append, List.length_cons, Nat.succ_mul]
        omega
  have hterms := Nat.mul_le_mul_right (aliases.table.size + 1) (length_terms_le aliases a b)
  have hadded := hreheaded (terms aliases a b)
  rw [Nat.mul_succ] at hterms
  rw [stockOf, List.length_append]
  omega

theorem card_unsolved_le (aliases : Aliases) (a b : Ty) :
    (unsolved (stockOf aliases a b) .var).card ≤ a.size + b.size + aliases.size := by
  have hsub : unsolved (stockOf aliases a b) .var ⊆ (terms aliases a b).toFinset := by
    intro t ht
    obtain ⟨hmem, hvar⟩ := Finset.mem_filter.mp ht
    obtain ⟨u, hu, heq⟩ := mem_instances.mp hmem
    rw [Ty.subst_var] at heq
    subst heq
    rcases mem_stockOf.mp hu with hu | ⟨_, _, _, _, _, rfl⟩
    · exact List.mem_toFinset.mpr hu
    · simp [Ty.isVar] at hvar
  exact (Finset.card_le_card hsub).trans
    ((List.toFinset_card_le _).trans (length_terms_le aliases a b))

/-- The search for a unifier starts with a bound that it does not reach. -/
theorem weight_lt_depthBound (aliases : Aliases) (a b : Ty) :
    weight (stockOf aliases a b) .var [] a < depthBound aliases a b := by
  have hlength := length_stockOf_le aliases a b
  have hunsolved := card_unsolved_le aliases a b
  have hunexpanded := card_unexpanded_le (stockOf aliases a b) .var []
  have hsmaller := card_smaller_le (stockOf aliases a b) .var a
  unfold weight depthBound
  dsimp only
  generalize (stockOf aliases a b).length = stock at *
  generalize (unsolved (stockOf aliases a b) .var).card = solved at *
  generalize (unexpanded (stockOf aliases a b) .var []).card = pairs at *
  generalize (smaller (stockOf aliases a b) .var a).card = below at *
  generalize a.size + b.size + aliases.size = nodes at *
  generalize nodes * (aliases.table.size + 1) = reach at *
  have hrounds : solved * ((stock * stock + 1) * (stock + 1)) ≤
      nodes * ((stock * stock + 1) * (stock + 1)) := Nat.mul_le_mul_right _ hunsolved
  have hpairs : pairs * (stock + 1) ≤ stock * stock * (stock + 1) :=
    Nat.mul_le_mul_right _ hunexpanded
  have hround : (stock * stock + 1) * (stock + 1) = stock * stock * (stock + 1) + (stock + 1) :=
    Nat.succ_mul _ _
  have hsquare : stock * stock ≤ (reach + 1) * (reach + 1) :=
    Nat.mul_le_mul (by omega) (by omega)
  calc
    solved * ((stock * stock + 1) * (stock + 1)) + pairs * (stock + 1) + below
        < nodes * ((stock * stock + 1) * (stock + 1)) + (stock * stock + 1) * (stock + 1) := by
          omega
    _ = (nodes + 1) * ((stock + 1) * (stock * stock + 1)) := by
          rw [Nat.mul_comm (stock + 1) (stock * stock + 1), Nat.succ_mul nodes]
    _ ≤ (nodes + 1) * ((reach + 1 + 1) * ((reach + 1) * (reach + 1) + 1)) := by
          apply Nat.mul_le_mul_left
          exact Nat.mul_le_mul (by omega) (by omega)
    _ = (nodes + 1) * (reach + 1 + 1) * ((reach + 1) * (reach + 1) + 1) :=
          (Nat.mul_assoc _ _ _).symm

/-- The search for a unifier ends before its bound, also with aliases that refer to
themselves. -/
theorem ends_depthBound (hfree : aliases.VarFree) (a b : Ty) :
    (unifyWithin aliases (depthBound aliases a b) [] a b).Ends := by
  have hmem : ∀ t ∈ terms aliases a b, t ∈ instances (stockOf aliases a b) .var := by
    intro t ht
    exact mem_instances.mpr ⟨t, mem_stockOf.mpr (.inl ht), Ty.subst_var t⟩
  apply ends_unifyWithin hfree (stock_stockOf aliases a b) (rooted_var _)
  · exact hmem a (mem_terms.mpr (.inl (Ty.mem_subterms_self a)))
  · exact hmem b (mem_terms.mpr (.inr (.inl (Ty.mem_subterms_self b))))
  · exact weight_lt_depthBound aliases a b

end StockOf

end Unification

end Rubric
