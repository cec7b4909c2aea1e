import Mathlib.Data.List.Forall2
import Mathlib.Order.Defs.PartialOrder
import Rubric.Proofs.Checker.Ensures

/-!
# What a step of the checker achieves

The converse of what a step ensures. A stage says what the variables taken so far will
turn out to be, and later stages add values for later variables. A session agrees with a
context at a stage when its equations, its numeric literals and the types in its scopes
agree with the context there. A step that is given types with the right meaning then
succeeds: it leads to a later stage, and its answer has the right meaning there.

This needs aliases without cycles and without variables in their bodies, for otherwise an
equation that holds at a stage need not have a unifier.
-/

namespace Rubric

/-! ## Stages -/

/-- Values for the variables with numbers below a bound. -/
structure Stage where
  next : Nat
  value : TypeVar → Ty

namespace Stage

instance : Preorder Stage where
  le p q := p.next ≤ q.next ∧ ExtendsFrom p.next p.value q.value
  le_refl p := ⟨Nat.le_refl _, .refl _ _⟩
  le_trans _ _ _ hpq hqr := ⟨Nat.le_trans hpq.1 hqr.1, hpq.2.trans hqr.2 hpq.1⟩

/-- The stage after one more variable. -/
def push (p : Stage) (τ : Ty) : Stage :=
  ⟨p.next + 1, extendAt p.next τ p.value⟩

theorem le_push (p : Stage) (τ : Ty) : p ≤ p.push τ :=
  ⟨Nat.le_succ _, extendsFrom_extendAt _ _ _⟩

/-- The variables of written names have the values of the names. -/
structure Knows (p : Stage) (names : Table String TypeVar) (ρ : String → Ty) : Prop where
  below : (⟨names, p.next⟩ : Naming).Below
  values : (⟨names, p.next⟩ : Naming).Values p.value ρ

variable {p q : Stage}

theorem subst_eq (h : p ≤ q) {t : Ty} (ht : t.Below p.next) : t.subst q.value = t.subst p.value :=
  h.2.subst_eq ht

theorem Knows.mono {names : Table String TypeVar} {ρ : String → Ty} (h : p.Knows names ρ)
    (hpq : p ≤ q) : q.Knows names ρ := by
  refine ⟨fun name v hv => Nat.lt_of_lt_of_le (h.below name v hv) hpq.1, ?_⟩
  intro name v hv
  rw [hpq.2 v (h.below name v hv)]
  exact h.values name v hv

theorem knows_nothing (p : Stage) (ρ : String → Ty) : p.Knows {} ρ := by
  refine ⟨below_no_names p.next, ?_⟩
  intro name v hv
  cases hv

end Stage

namespace Aliases

/-! ## Meanings -/

/-- At a stage a type has the full expansion of another one. -/
structure Means (aliases : Aliases) (p : Stage) (t τ : Ty) : Prop where
  below : t.Below p.next
  value : aliases.value p.value t = aliases.normal τ

namespace Means

variable {aliases : Aliases} {p q : Stage} {t τ a α b β : Ty} {ts τs : List Ty}

theorem mono (h : aliases.Means p t τ) (hpq : p ≤ q) : aliases.Means q t τ := by
  refine ⟨h.below.of_le hpq.1, ?_⟩
  unfold Aliases.value
  rw [Stage.subst_eq hpq h.below]
  exact h.value

theorem convert (h : aliases.Means p t τ) {τ' : Ty}
    (heq : aliases.normal τ = aliases.normal τ') : aliases.Means p t τ' :=
  ⟨h.below, h.value.trans heq⟩

/-- A type whose variables are replaced by their values means what comes out. -/
theorem of_subst (hbelow : t.Below p.next) (h : t.subst p.value = τ) : aliases.Means p t τ :=
  ⟨hbelow, congrArg aliases.normal h⟩

theorem con (name : String) : aliases.Means p (.con name) (.con name) :=
  .of_subst Ty.all_con rfl

theorem func (ha : aliases.Means p a α) (hb : aliases.Means p b β) :
    aliases.Means p (.func a b) (.func α β) := by
  refine ⟨Ty.all_func.mpr ⟨ha.below, hb.below⟩, ?_⟩
  have hvalue : aliases.value p.value (.func a b) =
      .func (aliases.value p.value a) (aliases.value p.value b) := by
    simp [Aliases.value]
  rw [hvalue, ha.value, hb.value, normal_func]

theorem list (h : aliases.Means p t τ) : aliases.Means p (.list t) (.list τ) := by
  refine ⟨Ty.all_list.mpr h.below, ?_⟩
  have hvalue : aliases.value p.value (.list t) = .list (aliases.value p.value t) := by
    simp [Aliases.value]
  rw [hvalue, h.value, normal_list]

theorem tuple (h : List.Forall₂ (aliases.Means p) ts τs) :
    aliases.Means p (.tuple ts) (.tuple τs) := by
  have hparts : (∀ t ∈ ts, t.Below p.next) ∧
      ts.map (aliases.value p.value) = τs.map aliases.normal := by
    induction h with
    | nil => exact ⟨by simp, rfl⟩
    | cons ht _ ih =>
        exact ⟨List.forall_mem_cons.mpr ⟨ht.below, ih.1⟩, congrArg₂ List.cons ht.value ih.2⟩
  refine ⟨Ty.all_tuple.mpr hparts.1, ?_⟩
  have hvalue : aliases.value p.value (.tuple ts) = .tuple (ts.map (aliases.value p.value)) := by
    simp [Aliases.value]
  rw [hvalue, hparts.2, normal_tuple]

theorem curried (hts : List.Forall₂ (aliases.Means p) ts τs) (ht : aliases.Means p t τ) :
    aliases.Means p (.curried ts t) (.curried τs τ) := by
  induction hts with
  | nil => exact ht
  | cons hinput _ ih => exact hinput.func ih

end Means

variable {aliases : Aliases} {p : Stage}

theorem means_push (aliases : Aliases) (p : Stage) (τ : Ty) :
    aliases.Means (p.push τ) (.var ⟨p.next, none⟩) τ :=
  .of_subst (Ty.all_var.mpr (Nat.lt_succ_self _)) (extendAt_self _ _ _ _)

theorem means_all_mono {ts τs : List Ty} {q : Stage} (h : List.Forall₂ (aliases.Means p) ts τs)
    (hpq : p ≤ q) : List.Forall₂ (aliases.Means q) ts τs :=
  h.imp fun _ _ hmeans => hmeans.mono hpq

theorem means_substAll {ts τs : List Ty} (hbelow : ∀ t ∈ ts, t.Below p.next)
    (h : Ty.substAll p.value ts = τs) : List.Forall₂ (aliases.Means p) ts τs := by
  rw [Ty.substAll_eq_map] at h
  subst h
  rw [List.forall₂_map_right_iff, List.forall₂_same]
  exact fun t ht => .of_subst (hbelow t ht) rfl

/-- What is left of a type after expansion shows the head of its value. -/
theorem expand_cases (hfree : aliases.VarFree) (hacyclic : aliases.Acyclic)
    (θ : TypeVar → Ty) (t : Ty) :
    (aliases.expand t).isVar = true ∨
      (∃ name, aliases.expand t = .con name ∧ aliases.value θ t = .con name) ∨
      (aliases.expand t).sameHead (aliases.value θ t) = true := by
  have hhead := unfoldHead_expand hacyclic t
  rw [← value_expand hfree hacyclic t]
  cases hvar : (aliases.expand t).isVar with
  | true => exact .inl rfl
  | false =>
      by_cases hcon : ∃ name, aliases.expand t = .con name
      · obtain ⟨name, hname⟩ := hcon
        rw [hname] at hhead ⊢
        exact .inr (.inl ⟨name, rfl, value_con_of_unfoldHead hhead⟩)
      · exact .inr (.inr (sameHead_value aliases θ hvar (not_exists.mp hcon)))

theorem expand_of_value_con (hfree : aliases.VarFree) (hacyclic : aliases.Acyclic)
    {θ : TypeVar → Ty} {t : Ty} {name : String} (h : aliases.value θ t = .con name) :
    (aliases.expand t).isVar = true ∨ aliases.expand t = .con name := by
  rcases expand_cases hfree hacyclic θ t with hvar | ⟨other, hexpand, hvalue⟩ | hhead
  · exact .inl hvar
  · rw [h] at hvalue
    cases hvalue
    exact .inr hexpand
  · rw [h] at hhead
    cases hexpand : aliases.expand t <;> simp [hexpand, Ty.sameHead] at hhead

theorem expand_of_value_list (hfree : aliases.VarFree) (hacyclic : aliases.Acyclic)
    {θ : TypeVar → Ty} {t element : Ty} (h : aliases.value θ t = .list element) :
    (aliases.expand t).isVar = true ∨ ∃ u, aliases.expand t = .list u := by
  rcases expand_cases hfree hacyclic θ t with hvar | ⟨other, _, hvalue⟩ | hhead
  · exact .inl hvar
  · rw [h] at hvalue
    cases hvalue
  · rw [h] at hhead
    cases hexpand : aliases.expand t <;> simp [hexpand, Ty.sameHead] at hhead ⊢

end Aliases

namespace Session

variable {aliases : Aliases} {Γ : Context} {p q : Stage} {session : Session}

/-- A session agrees with a context at a stage. -/
structure Agrees (aliases : Aliases) (Γ : Context) (p : Stage) (session : Session) : Prop where
  next : session.next = p.next
  tidy : session.Tidy aliases
  subst : session.subst.SolvedBy (Unification.SameNormal aliases) p.value
  numeric : ∀ v ∈ session.numeric, (Discipline.strict aliases).number (p.value v)
  scopes : ∀ name,
    (session.scopes.lookup name).map (aliases.value p.value) = (Γ name).map aliases.normal

theorem mayBeNumeric_of_value (hfree : aliases.VarFree) (hacyclic : aliases.Acyclic)
    {θ : TypeVar → Ty} {t : Ty} {kind : String} (hkind : kind ∈ Ty.numericKinds)
    (h : aliases.value θ t = .con kind) : mayBeNumeric aliases t = true := by
  unfold mayBeNumeric
  rcases Aliases.expand_of_value_con hfree hacyclic h with hvar | hcon
  · obtain ⟨v, hv⟩ := Ty.isVar_iff.mp hvar
    rw [hv]
  · rw [hcon]
    exact decide_eq_true hkind

namespace Agrees

theorem eq_none_iff (h : session.Agrees aliases Γ p) (name : String) :
    Γ name = none ↔ session.scopes.lookup name = none := by
  rw [← Option.map_eq_none_iff, ← h.scopes name, Option.map_eq_none_iff]

theorem means_of_lookup (h : session.Agrees aliases Γ p) {name : String} {τ : Ty}
    (hname : Γ name = some τ) :
    ∃ t, session.scopes.lookup name = some t ∧ aliases.Means p t τ := by
  have hscope := h.scopes name
  rw [hname] at hscope
  obtain ⟨t, ht, hvalue⟩ := Option.map_eq_some_iff.mp hscope
  have hbelow := h.tidy.scopes name t ht
  rw [h.next] at hbelow
  exact ⟨t, ht, hbelow, hvalue⟩

/-- Types in scope keep their values at later stages. -/
theorem scopes_mono (h : session.Agrees aliases Γ p) (hpq : p ≤ q) (name : String) :
    (session.scopes.lookup name).map (aliases.value q.value) = (Γ name).map aliases.normal := by
  rw [← h.scopes name]
  apply Option.map_congr
  intro t ht
  have hbelow := h.tidy.scopes name t ht
  rw [h.next] at hbelow
  unfold Aliases.value
  rw [Stage.subst_eq hpq hbelow]

theorem subst_mono (h : session.Agrees aliases Γ p) (hpq : p ≤ q) :
    session.subst.SolvedBy (Unification.SameNormal aliases) q.value := by
  intro v t hv
  obtain ⟨hbound, hbelow⟩ := h.tidy.subst v t hv
  rw [h.next] at hbound hbelow
  rw [hpq.2 v hbound, Stage.subst_eq hpq hbelow]
  exact h.subst v t hv

theorem numeric_mono (h : session.Agrees aliases Γ p) (hpq : p ≤ q) :
    ∀ v ∈ session.numeric, (Discipline.strict aliases).number (q.value v) := by
  intro v hv
  have hbound := h.tidy.numeric v hv
  rw [h.next] at hbound
  rw [hpq.2 v hbound]
  exact h.numeric v hv

/-- Taking variables leads to a later stage. -/
theorem advance (hfree : aliases.VarFree) (h : session.Agrees aliases Γ p) (hpq : p ≤ q) :
    Agrees aliases Γ q { session with next := q.next } := by
  have hstep : session.Step aliases { session with next := q.next } :=
    .advance (h.next.trans_le hpq.1)
  exact ⟨rfl, hstep.tidy hfree h.tidy, h.subst_mono hpq, h.numeric_mono hpq, h.scopes_mono hpq⟩

/-- A literal takes a variable with a numeric value. -/
theorem literal (hfree : aliases.VarFree) (h : session.Agrees aliases Γ p) {τ : Ty}
    (hτ : (Discipline.strict aliases).number τ) :
    Agrees aliases Γ (p.push τ) { session with
      next := session.next + 1, numeric := ⟨session.next, none⟩ :: session.numeric } := by
  have hle := p.le_push τ
  refine ⟨congrArg Nat.succ h.next, (Step.literal session).tidy hfree h.tidy, h.subst_mono hle,
    ?_, h.scopes_mono hle⟩
  refine List.forall_mem_cons.mpr ⟨?_, h.numeric_mono hle⟩
  rw [h.next]
  show (Discipline.strict aliases).number (extendAt p.next τ p.value ⟨p.next, none⟩)
  rw [extendAt_self]
  exact hτ

/-- An equation that holds at a stage is accepted. -/
theorem equate (hfree : aliases.VarFree) (hacyclic : aliases.Acyclic)
    (h : session.Agrees aliases Γ p) (literals : Arrangement TypeVar) {expected found τ : Ty}
    (hexpected : aliases.Means p expected τ) (hfound : aliases.Means p found τ) :
    ∃ subst, session.equate aliases literals expected found = .ok subst ∧
      Agrees aliases Γ p { session with subst } := by
  have hvalue : aliases.value p.value (session.subst.apply expected) =
      aliases.value p.value (session.subst.apply found) := by
    rw [Unification.value_apply h.subst, Unification.value_apply h.subst, hexpected.value,
      hfound.value]
  obtain ⟨solution, hunify, hsolution⟩ := Unification.exists_unify hfree hacyclic hvalue
  have hsubst := h.subst.compose hsolution aliases.normal_congruence
  have hnumeric : ∀ v ∈ session.numeric,
      mayBeNumeric aliases ((session.subst.compose solution).apply (.var v)) = true := by
    intro v hv
    obtain ⟨kind, hkind, hnormal⟩ := h.numeric v hv
    have happly := Unification.value_apply hsubst (.var v)
    exact mayBeNumeric_of_value hfree hacyclic hkind (happly.trans hnormal)
  have hequate : session.equate aliases literals expected found = .ok _ :=
    equate_eq_ok.mpr ⟨solution, hunify, rfl, hnumeric⟩
  have hbelow : expected.Below session.next := h.next ▸ hexpected.below
  have hbelow' : found.Below session.next := h.next ▸ hfound.below
  have htidy := (Step.accept hbelow hbelow' hequate).tidy hfree h.tidy
  exact ⟨_, hequate, h.next, htidy, hsubst, h.numeric, h.scopes⟩

/-- The names in scope change together with the context. -/
theorem rescope (h : session.Agrees aliases Γ p) {Δ : Context} {scopes : Scopes}
    (hbelow : ∀ name t, scopes.lookup name = some t → t.Below p.next)
    (hscopes : ∀ name,
      (scopes.lookup name).map (aliases.value p.value) = (Δ name).map aliases.normal) :
    Agrees aliases Δ p { session with scopes } := by
  have htidy : Tidy aliases { session with scopes } :=
    ⟨h.tidy.solved, h.tidy.subst, h.tidy.numeric, h.tidy.kinds, h.next ▸ hbelow⟩
  exact ⟨h.next, htidy, h.subst, h.numeric, hscopes⟩

end Agrees

theorem agrees_start (aliases : Aliases) (session : Session) (p : Stage) :
    Agrees aliases .empty p { session.reset with scopes := .empty, next := p.next } := by
  refine ⟨rfl, tidy_start aliases session p.next, Substitution.solvedBy_empty, ?_, ?_⟩
  · simp [reset]
  · simp [Context.empty]

end Session

namespace Check

variable {α β : Type} {aliases : Aliases} {Γ Δ Ξ : Context} {p : Stage} {before : Session}

/-- A step succeeds and leads to a later stage, where the session agrees with a context and
the answer is as wanted. -/
def Achieves (aliases : Aliases) (step : Check α) (before : Session) (p : Stage) (Δ : Context)
    (Q : Stage → α → Prop) : Prop :=
  ∃ a after q, step.Gives before a after ∧ p ≤ q ∧ after.Agrees aliases Δ q ∧ Q q a

namespace Achieves

variable {Q : Stage → α → Prop} {R : Stage → β → Prop}

theorem bind {step : Check α} {next : α → Check β} (hstep : step.Achieves aliases before p Δ Q)
    (hnext : ∀ a middle q, p ≤ q → middle.Agrees aliases Δ q → Q q a →
      (next a).Achieves aliases middle q Ξ R) :
    (step >>= next).Achieves aliases before p Ξ R := by
  obtain ⟨a, middle, q, hfirst, hpq, hmiddle, ha⟩ := hstep
  obtain ⟨b, after, r, hsecond, hqr, hafter, hb⟩ := hnext a middle q hpq hmiddle ha
  exact ⟨b, after, r, gives_bind.mpr ⟨a, middle, hfirst, hsecond⟩, le_trans hpq hqr, hafter, hb⟩

theorem mono {step : Check α} {R : Stage → α → Prop} (h : step.Achieves aliases before p Δ Q)
    (himp : ∀ q a, p ≤ q → Q q a → R q a) : step.Achieves aliases before p Δ R := by
  obtain ⟨a, after, q, hgives, hpq, hafter, ha⟩ := h
  exact ⟨a, after, q, hgives, hpq, hafter, himp q a hpq ha⟩

theorem pure {a : α} (h : before.Agrees aliases Γ p) (ha : Q p a) :
    (Pure.pure a : Check α).Achieves aliases before p Γ Q :=
  ⟨a, before, p, gives_pure.mpr ⟨rfl, rfl⟩, le_refl p, h, ha⟩

theorem get {next : Session → Check α} (h : (next before).Achieves aliases before p Δ Q) :
    (MonadState.get >>= next : Check α).Achieves aliases before p Δ Q := by
  obtain ⟨a, after, q, hgives, hpq, hafter, ha⟩ := h
  exact ⟨a, after, q, gives_get_bind.mpr hgives, hpq, hafter, ha⟩

theorem inContext {step : Check α} (context : String) (h : step.Achieves aliases before p Δ Q) :
    (Check.inContext context step).Achieves aliases before p Δ Q := by
  obtain ⟨a, after, q, hgives, hpq, hafter, ha⟩ := h
  exact ⟨a, after, q, gives_inContext.mpr hgives, hpq, hafter, ha⟩

end Achieves

/-! ## Primitive steps -/

/-- A new variable can stand for any type. -/
theorem achieves_fresh (hfree : aliases.VarFree) (h : before.Agrees aliases Γ p) (τ : Ty) :
    fresh.Achieves aliases before p Γ fun q t => aliases.Means q t τ := by
  have hle := p.le_push τ
  refine ⟨_, _, p.push τ, gives_fresh.mpr ⟨rfl, rfl⟩, hle, ?_, ?_⟩
  · rw [h.next]
    exact h.advance hfree hle
  · rw [h.next]
    exact aliases.means_push p τ

theorem achieves_freshNumeric (hfree : aliases.VarFree) (h : before.Agrees aliases Γ p) {τ : Ty}
    (hτ : (Discipline.strict aliases).number τ) :
    freshNumeric.Achieves aliases before p Γ fun q t => aliases.Means q t τ := by
  refine ⟨_, _, p.push τ, gives_freshNumeric.mpr ⟨rfl, rfl⟩, p.le_push τ, h.literal hfree hτ, ?_⟩
  rw [h.next]
  exact aliases.means_push p τ

theorem achieves_freshFor (hfree : aliases.VarFree) (xs : List α) {τs : List Ty}
    (h : before.Agrees aliases Γ p) (hlength : xs.length = τs.length) :
    (freshFor xs).Achieves aliases before p Γ fun q ts =>
      List.Forall₂ (aliases.Means q) ts τs := by
  induction xs generalizing τs before p with
  | nil =>
      obtain rfl := List.length_eq_zero_iff.mp hlength.symm
      exact .pure h .nil
  | cons x xs ih =>
      cases τs with
      | nil => cases hlength
      | cons τ τs =>
          refine (achieves_fresh hfree h τ).bind fun t middle q _ hmiddle ht => ?_
          refine (ih hmiddle (Nat.succ.inj hlength)).bind fun ts last r hqr hlast hts => ?_
          exact .pure hlast (.cons (ht.mono hqr) hts)

/-- A written type is lowered to a type that means any given instance of it. -/
theorem achieves_lowering (hfree : aliases.VarFree) (h : before.Agrees aliases Γ p)
    {names : Table String TypeVar} {ρ : String → Ty} {term : TypeTerm} {τ : Ty}
    (hinstance : term.Instance ρ τ) (hknows : p.Knows names ρ) :
    (lowering names term.lower).Achieves aliases before p Γ fun q answer =>
      aliases.Means q answer.1 τ ∧ q.Knows answer.2 ρ := by
  have hgrows := term.grows_lower ⟨names, p.next⟩
  obtain ⟨θ, hextends, heq, hvalues⟩ :=
    TypeTerm.exists_values_lower hinstance ⟨names, p.next⟩ p.value hknows.below hknows.values
  have hle : p ≤ ⟨(term.lower.run ⟨names, p.next⟩).2.next, θ⟩ := ⟨hgrows.next_le, hextends⟩
  refine ⟨_, _, _, gives_lowering.mpr ⟨rfl, rfl⟩, hle, ?_, ?_⟩
  · rw [h.next]
    exact h.advance hfree hle
  · rw [h.next]
    exact ⟨.of_subst (term.below_lower _ hknows.below) heq, hgrows.below hknows.below, hvalues⟩

theorem achieves_resolve (h : before.Agrees aliases Γ p) {t τ : Ty} (ht : aliases.Means p t τ) :
    (resolve t).Achieves aliases before p Γ fun q u => aliases.Means q u τ := by
  have hbelow : t.Below before.next := h.next ▸ ht.below
  have hresolved : (before.subst.apply t).Below p.next := h.next ▸ h.tidy.subst.apply hbelow
  have hvalue := (Unification.value_apply h.subst t).trans ht.value
  exact ⟨_, before, p, gives_resolve.mpr ⟨rfl, rfl⟩, le_refl p, h, hresolved, hvalue⟩

theorem achieves_constrain (hfree : aliases.VarFree) (hacyclic : aliases.Acyclic)
    (h : before.Agrees aliases Γ p) {literals : Arrangement TypeVar} {expected found τ : Ty}
    (hexpected : aliases.Means p expected τ) (hfound : aliases.Means p found τ) :
    (constrain aliases literals expected found).Achieves aliases before p Γ fun _ _ => True := by
  obtain ⟨subst, hequate, hafter⟩ := h.equate hfree hacyclic literals hexpected hfound
  exact ⟨(), _, p, gives_constrain.mpr ⟨subst, hequate, rfl⟩, le_refl p, hafter, trivial⟩

theorem achieves_bindName (h : before.Agrees aliases Γ p) (name : String) {t τ : Ty}
    (ht : aliases.Means p t τ) :
    (bindName name t).Achieves aliases before p (Γ.bind name τ) fun _ _ => True := by
  refine ⟨(), _, p, gives_bindName.mpr rfl, le_refl p, h.rescope ?_ ?_, trivial⟩
  · intro other u hu
    rw [Scopes.lookup_insert] at hu
    split at hu
    · cases hu
      exact ht.below
    · exact h.next ▸ h.tidy.scopes other u hu
  · intro other
    rw [Scopes.lookup_insert]
    unfold Context.bind
    split
    · exact congrArg some ht.value
    · exact h.scopes other

theorem achieves_inNewScope {step : Check α} {Q : Stage → α → Prop}
    (h : before.Agrees aliases Γ p)
    (hstep : ∀ inner : Session, inner.Agrees aliases Γ p → step.Achieves aliases inner p Δ Q) :
    (inNewScope step).Achieves aliases before p Γ Q := by
  have hpush : Session.Agrees aliases Γ p { before with scopes := before.scopes.push } := by
    refine h.rescope ?_ ?_
    · intro name t ht
      rw [Scopes.lookup_push] at ht
      exact h.next ▸ h.tidy.scopes name t ht
    · intro name
      rw [Scopes.lookup_push]
      exact h.scopes name
  obtain ⟨a, inside, q, hgives, hpq, hinside, ha⟩ := hstep _ hpush
  have hpop : Session.Agrees aliases Γ q { inside with scopes := before.scopes } := by
    refine hinside.rescope ?_ (h.scopes_mono hpq)
    intro name t ht
    have hbelow : t.Below p.next := h.next ▸ h.tidy.scopes name t ht
    exact hbelow.of_le hpq.1
  exact ⟨a, _, q, gives_inNewScope.mpr ⟨inside, hgives, rfl⟩, hpq, hpop, ha⟩

end Check

end Rubric
