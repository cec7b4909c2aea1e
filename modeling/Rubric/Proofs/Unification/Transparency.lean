import Rubric.Proofs.Unification.Depth
import Rubric.Proofs.Unification.Guard

/-!
# Aliases are transparent

Unification expands an alias only when it stands at the head of a pair that has to be
taken apart, and it binds variables to types in which aliases are left as they are. The
outcome is nevertheless that of a unification without aliases, of the types with every
alias expanded beforehand: it takes the same steps except for those that expand a head,
and an alias that meets itself is not taken apart at all.
-/

namespace Rubric

namespace Unification

variable {aliases : Aliases}

/-! ## Equal types -/

theorem follows_unifyEach_self (φ : Ty → Ty) {unify : Ty → Ty → Search Substitution}
    {ts : List Ty} (h : ∀ t ∈ ts, Follows φ (unify t t) (pure .empty)) :
    Follows φ (unifyEach unify (ts.zip ts) .empty) (pure .empty) := by
  induction ts with
  | nil => exact (lifts_follows φ).found .empty
  | cons t ts ih =>
      rw [List.forall_mem_cons] at h
      simp only [List.zip_cons_cons, unifyEach, Substitution.apply_empty,
        Substitution.empty_compose]
      have hpure : (pure .empty : Search Substitution) =
          (pure .empty : Search Substitution) >>= fun _ => pure .empty :=
        (pure_bind _ _).symm
      rw [hpure]
      apply (lifts_follows φ).sequence h.1
      intro s hs
      rw [← Search.finds_pure.mp hs]
      exact ih h.2

/-- A type unifies with itself and binds nothing. -/
theorem follows_self (φ : Ty → Ty) (depth : Nat) (t : Ty) :
    Follows φ (unguarded aliases depth t t) (pure .empty) := by
  induction depth generalizing t with
  | zero => exact follows_exhausted _ _
  | succ depth ih =>
      have hempty : Follows φ (pure .empty) (pure .empty) := (lifts_follows φ).found .empty
      cases hvar : t.isVar with
      | true =>
          obtain ⟨v, rfl⟩ := Ty.isVar_iff.mp hvar
          rwa [unguarded_var]
      | false =>
          by_cases hcon : ∃ name, t = .con name
          · obtain ⟨name, rfl⟩ := hcon
            rwa [unguarded_name]
          · have hname : ∀ name, t ≠ .con name := not_exists.mp hcon
            rw [unguarded_succ, dispatch_heads hvar hvar fun name heq => (hname name heq).elim]
            unfold unifyHeads
            dsimp only
            by_cases hfixed : aliases.expand t = t ∧ aliases.expand t = t
            · rw [if_pos hfixed, unifyParts_eq, if_pos (Ty.sameHead_self hvar hname)]
              exact follows_unifyEach_self φ fun c _ => ih c
            · rw [if_neg hfixed, if_neg List.not_mem_nil]
              exact ih _

/-! ## Steps on full expansions -/

theorem normal_ne_var (hfree : aliases.VarFree) {t : Ty} {v : TypeVar} (h : t ≠ .var v) :
    aliases.normal t ≠ .var v := by
  intro heq
  have hvar : t.isVar = true := by
    rw [← Aliases.isVar_normal hfree, heq]
    rfl
  obtain ⟨w, rfl⟩ := Ty.isVar_iff.mp hvar
  rw [Aliases.normal_var] at heq
  exact h heq

theorem isVar_expand (hfree : aliases.VarFree) (hacyclic : aliases.Acyclic) {t : Ty}
    (h : t.isVar = false) : (aliases.expand t).isVar = false := by
  rw [← Aliases.isVar_normal hfree, Aliases.normal_expand hacyclic, Aliases.isVar_normal hfree, h]

theorem follows_binding (hfree : aliases.VarFree) (v : TypeVar) (t : Ty) :
    Follows aliases.normal (bind v (aliases.normal t)) (bind v t) := by
  unfold bind
  rw [Aliases.occurs_normal hfree]
  split
  · exact (lifts_follows aliases.normal).failed (.occurs v t)
  · exact (lifts_follows aliases.normal).found (.singleton v t)

/-- Two types whose heads are no aliases. -/
theorem follows_heads (hfree : aliases.VarFree) {depth more : Nat}
    (ih : ∀ x y, Follows aliases.normal
      (unguarded .empty depth (aliases.normal x) (aliases.normal y)) (unguarded aliases more x y))
    {a b : Ty} (ha : a.isVar = false) (hb : b.isVar = false)
    (hahead : aliases.unfoldHead a = none) (hbhead : aliases.unfoldHead b = none) :
    Follows aliases.normal
      (unguarded .empty (depth + 1) (aliases.normal a) (aliases.normal b))
      (unguarded aliases (more + 1) a b) := by
  by_cases hname : ∃ name, a = .con name ∧ b = .con name
  · obtain ⟨name, rfl, rfl⟩ := hname
    rw [unguarded_name]
    exact follows_self _ _ _
  · have hne : ∀ name, a = .con name → b ≠ .con name :=
      fun name hna hnb => hname ⟨name, hna, hnb⟩
    have hne' : ∀ name, aliases.normal a = .con name → aliases.normal b ≠ .con name := by
      intro name hna hnb
      exact hne name (Aliases.eq_con_of_normal hahead hna) (Aliases.eq_con_of_normal hbhead hnb)
    have ha' : (aliases.normal a).isVar = false := by rw [Aliases.isVar_normal hfree, ha]
    have hb' : (aliases.normal b).isVar = false := by rw [Aliases.isVar_normal hfree, hb]
    have hafix := Aliases.expand_of_unfoldHead hahead
    have hbfix := Aliases.expand_of_unfoldHead hbhead
    rw [unguarded_succ, dispatch_heads ha' hb' hne', unguarded_succ, dispatch_heads ha hb hne]
    unfold unifyHeads
    dsimp only
    rw [if_pos ⟨rfl, rfl⟩, if_pos ⟨hafix, hbfix⟩]
    apply relates_unifyParts (Aliases.uniform_normal hfree) (lifts_follows aliases.normal)
      (Aliases.sameHead_normal hahead hbhead)
    · intro hsame
      constructor
      · apply Aliases.children_normal
        rintro name rfl
        simp [Ty.sameHead] at hsame
      · apply Aliases.children_normal
        rintro name rfl
        cases a <;> simp [Ty.sameHead] at hsame
    · intro _ x y _
      exact ih x y

/-- The search over full expansions follows the search over the types. A head takes one
more step when it has to be expanded, so twice the bound is enough. -/
theorem follows_normal (hfree : aliases.VarFree) (hacyclic : aliases.Acyclic) {depth more : Nat}
    (hle : 2 * depth ≤ more) (a b : Ty) :
    Follows aliases.normal
      (unguarded .empty depth (aliases.normal a) (aliases.normal b))
      (unguarded aliases more a b) := by
  induction depth generalizing more a b with
  | zero => exact follows_exhausted _ _
  | succ depth ih =>
      obtain ⟨more, rfl⟩ : ∃ fewer, more = fewer + 2 := Nat.exists_eq_add_of_le' (by omega)
      have hless : 2 * depth ≤ more := by omega
      have hless' : 2 * depth ≤ more + 1 := by omega
      rcases pair_cases a b with ⟨v, rfl, rfl⟩ | ⟨v, rfl, hb⟩ | ⟨v, ha, rfl⟩ |
        ⟨name, rfl, rfl⟩ | ⟨ha, hb, hne⟩
      · rw [unguarded_var]
        exact follows_self _ _ _
      · have hleft : unguarded .empty (depth + 1) (.var v) (aliases.normal b) =
            bind v (aliases.normal b) := dispatch_left (normal_ne_var hfree hb)
        have hright : unguarded aliases (more + 2) (.var v) b = bind v b := dispatch_left hb
        rw [Aliases.normal_var, hleft, hright]
        exact follows_binding hfree v b
      · have ha' : (aliases.normal a).isVar = false := by rw [Aliases.isVar_normal hfree, ha]
        have hleft : unguarded .empty (depth + 1) (aliases.normal a) (.var v) =
            bind v (aliases.normal a) := dispatch_right ha'
        have hright : unguarded aliases (more + 2) a (.var v) = bind v a := dispatch_right ha
        rw [Aliases.normal_var, hleft, hright]
        exact follows_binding hfree v a
      · rw [unguarded_name]
        exact follows_self _ _ _
      · have hahead := Aliases.unfoldHead_expand hacyclic a
        have hbhead := Aliases.unfoldHead_expand hacyclic b
        by_cases hfixed : aliases.expand a = a ∧ aliases.expand b = b
        · rw [hfixed.1] at hahead
          rw [hfixed.2] at hbhead
          exact follows_heads hfree (ih hless') ha hb hahead hbhead
        · have hstep : unguarded aliases (more + 2) a b =
              unguarded aliases (more + 1) (aliases.expand a) (aliases.expand b) := by
            rw [unguarded_succ, dispatch_heads ha hb hne]
            unfold unifyHeads
            dsimp only
            rw [if_neg hfixed, if_neg List.not_mem_nil]
          have hexpanded := follows_heads hfree (ih hless) (isVar_expand hfree hacyclic ha)
            (isVar_expand hfree hacyclic hb) hahead hbhead
          rw [Aliases.normal_expand hacyclic, Aliases.normal_expand hacyclic] at hexpanded
          rw [hstep]
          exact hexpanded

/-! ## Unification of full expansions -/

theorem run_depthBound (hfree : aliases.VarFree) (a b : Ty) :
    (unifyWithin aliases (depthBound aliases a b) [] a b).run = some (unify aliases a b) := by
  have hends := ends_depthBound hfree a b
  unfold Search.Ends at hends
  unfold unify
  cases hrun : (unifyWithin aliases (depthBound aliases a b) [] a b).run with
  | none => exact (hends hrun).elim
  | some outcome => rfl

/-- Every bound under which the search comes to an end gives the answer of unification. -/
theorem unify_eq_of_run (hfree : aliases.VarFree) {depth : Nat} {a b : Ty}
    {outcome : Except UnifyError Substitution}
    (h : (unifyWithin aliases depth [] a b).run = some outcome) : unify aliases a b = outcome := by
  have hbound := run_of_le (Nat.le_max_right depth _) (run_depthBound hfree a b)
  have hdepth := run_of_le (Nat.le_max_left depth (depthBound aliases a b)) h
  rw [hbound] at hdepth
  exact Option.some.inj hdepth

theorem unify_normal (hfree : aliases.VarFree) (hacyclic : aliases.Acyclic) (a b : Ty) :
    unify .empty (aliases.normal a) (aliases.normal b) =
      translated aliases.normal (unify aliases a b) := by
  let depth := depthBound .empty (aliases.normal a) (aliases.normal b)
  have hexpanded : unifyWithin .empty depth [] (aliases.normal a) (aliases.normal b) =
      unguarded .empty depth (aliases.normal a) (aliases.normal b) :=
    unifyWithin_eq_unguarded Aliases.varFree_empty Aliases.acyclic_empty (passes_nil _ _) depth
  have haliased : unifyWithin aliases (2 * depth) [] a b = unguarded aliases (2 * depth) a b :=
    unifyWithin_eq_unguarded hfree hacyclic (passes_nil a b) (2 * depth)
  have hends := run_depthBound Aliases.varFree_empty (aliases.normal a) (aliases.normal b)
  have hfollows := follows_normal hfree hacyclic (Nat.le_refl (2 * depth)) a b
  unfold Follows at hfollows
  rw [← hexpanded, ← haliased, hends] at hfollows
  cases hfollows with
  | inl hnone => cases hnone
  | inr hsame =>
      obtain ⟨outcome, hrun, htranslated⟩ := Option.map_eq_some_iff.mp hsame.symm
      rw [unify_eq_of_run hfree hrun]
      exact htranslated.symm

/-- Unification with aliases succeeds exactly when unification of the full expansions does,
with the full expansions of the same bindings, and it fails with the same kind of error.
The guard against repeated expansion has no part in it. -/
theorem aliases_transparent (hfree : aliases.VarFree) (hacyclic : aliases.Acyclic) (a b : Ty) :
    ((∃ s, unify aliases a b = .ok s) ↔
      ∃ s, unify .empty (aliases.normal a) (aliases.normal b) = .ok s) ∧
    (∀ s s', unify aliases a b = .ok s →
      unify .empty (aliases.normal a) (aliases.normal b) = .ok s' →
        ∀ v, s'.get? v = (s.get? v).map aliases.normal) ∧
    (∀ error error', unify aliases a b = .error error →
      unify .empty (aliases.normal a) (aliases.normal b) = .error error' →
        error' = error.mapTypes aliases.normal) ∧
    ∀ depth, unifyWithin aliases depth [] a b = unguarded aliases depth a b := by
  have hguard := unifyWithin_eq_unguarded hfree hacyclic (passes_nil a b)
  rw [unify_normal hfree hacyclic]
  cases unify aliases a b with
  | error error => simp [translated, hguard]
  | ok s => simp [translated, hguard]

/-- A chain of aliases, with one more at the head of an application. The bindings keep the
alias names. -/
theorem aliases_transparent_chain :
    ∃ (aliases : Aliases) (a b c : Ty) (s s' : Substitution) (error error' : UnifyError),
      aliases.get? "Names" = some (.list (.con "Name")) ∧ aliases.get? "Name" = some .string ∧
      unify aliases a b = .ok s ∧
      unify .empty (aliases.normal a) (aliases.normal b) = .ok s' ∧
      s.get? ⟨0, none⟩ = some (.con "Names") ∧ s'.get? ⟨0, none⟩ = some (.list .string) ∧
      (∀ v, s'.get? v = (s.get? v).map aliases.normal) ∧
      (∀ depth, unifyWithin aliases depth [] a b = unguarded aliases depth a b) ∧
      unify aliases (.var ⟨0, none⟩) c = .error error ∧
      unify .empty (.var ⟨0, none⟩) (aliases.normal c) = .error error' ∧
      error' = error.mapTypes aliases.normal := by
  let aliases : Aliases := ((Aliases.empty.insert "Name" .string).insert "Names"
    (.list (.con "Name"))).insert "Box" (.con "Maybe")
  let a : Ty := .tuple [.var ⟨0, none⟩, .app (.con "Box") [.var ⟨1, none⟩],
    .func (.con "Names") (.var ⟨2, none⟩)]
  let b : Ty := .tuple [.con "Names", .app (.con "Maybe") [.con "Name"],
    .func (.list .string) (.list (.var ⟨1, none⟩))]
  let c : Ty := .app (.con "Box") [.var ⟨0, none⟩]
  have hfree : aliases.VarFree := by
    refine ((Aliases.varFree_empty.insert ?_).insert ?_).insert ?_ <;> simp [Ty.Closed, Ty.string]
  have hacyclic : aliases.Acyclic := by
    let rank : String → Nat := fun name =>
      if name = "Names" then 2 else if name = "Name" ∨ name = "Box" then 1 else 0
    apply acyclic_of_rank rank
    intro name other hmentions
    obtain ⟨body, hbody, hother⟩ := hmentions
    have hentries : (name = "Box" ∧ other = "Maybe") ∨ (name = "Names" ∧ other = "Name") ∨
        (name = "Name" ∧ other = "String") := by
      simp only [aliases, Aliases.get?_insert, Aliases.get?_empty] at hbody
      grind [Ty.subterms, Ty.string]
    rcases hentries with ⟨rfl, rfl⟩ | ⟨rfl, rfl⟩ | ⟨rfl, rfl⟩ <;> decide
  have htransparent := aliases_transparent hfree hacyclic a b
  obtain ⟨s, hs, hbound⟩ : ∃ s, unify aliases a b = .ok s ∧
      s.get? ⟨0, none⟩ = some (.con "Names") := by
    refine ⟨_, rfl, ?_⟩
    rfl
  obtain ⟨s', hs'⟩ := htransparent.1.mp ⟨s, hs⟩
  have hbindings := htransparent.2.1 s s' hs hs'
  have hnormal : s'.get? ⟨0, none⟩ = some (.list .string) := by
    rw [hbindings, hbound]
    rfl
  have herrors := (aliases_transparent hfree hacyclic (.var ⟨0, none⟩) c).2.2.1
  exact ⟨aliases, a, b, c, s, s', _, _, rfl, rfl, hs, hs', hbound, hnormal, hbindings,
    htransparent.2.2.2, rfl, rfl, herrors _ _ rfl rfl⟩

end Unification

end Rubric
