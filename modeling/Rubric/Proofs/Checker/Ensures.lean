import Rubric.Proofs.Checker.Steps
import Rubric.Typing.Inference

/-!
# What a step of the checker ensures

A successful step on a tidy session is a sequence of session steps, and the variables of
its answer have been taken by then. Under every valuation that solves the session it
leaves, the step has also shown something: an equation holds, a type is an instance of
another, a name has a type. A solution of a later session solves the earlier ones, so what
the parts of a sequence have shown holds together at its end.
-/

namespace Rubric

/-- The types of the names in scope under a valuation. -/
def Scopes.under (σ : TypeVar → Ty) (scopes : Scopes) : Context :=
  fun name => (scopes.lookup name).map (Ty.subst σ)

theorem Scopes.under_eq_none (σ : TypeVar → Ty) {scopes : Scopes} {name : String} :
    scopes.under σ name = none ↔ scopes.lookup name = none := by
  simp [under]

theorem Scopes.under_push (σ : TypeVar → Ty) (scopes : Scopes) :
    scopes.push.under σ = scopes.under σ := by
  funext name
  simp [under]

theorem Scopes.under_insert (σ : TypeVar → Ty) (scopes : Scopes) (name : String) (t : Ty) :
    (scopes.insert name t).under σ = (scopes.under σ).bind name (t.subst σ) := by
  funext n
  simp only [under, Context.bind, lookup_insert]
  split <;> rfl

/-- The polymorphic variables of a built-in name are the first ones. -/
theorem Prelude.all_of_builtin? {name : String} {scheme : Scheme}
    (h : builtin? name = some scheme) :
    scheme.body.All fun v => v.id < scheme.arity ∧ v.name = none := by
  unfold builtin? at h
  repeat' split at h
  all_goals cases h
  all_goals
    simp [Scheme.mono, Scheme.a, Scheme.b, Scheme.c, Ty.curried, Ty.bool]

namespace Scheme

variable {scheme : Scheme} {start : Nat}

/-- The type with new variables, numbered from a given number on. -/
def instanceAt (scheme : Scheme) (start : Nat) : Ty :=
  scheme.instantiate (Check.newTypes start scheme.arity)

variable (h : scheme.body.All fun v => v.id < scheme.arity ∧ v.name = none)

include h

theorem instanceAt_eq :
    scheme.instanceAt start = scheme.body.subst fun v => .var ⟨start + v.id, none⟩ := by
  refine Ty.subst_congr fun v hv => ?_
  have hlt := (h v hv).1
  simp [Check.newTypes, List.getD_eq_getElem?_getD, hlt]

theorem below_instanceAt : (scheme.instanceAt start).Below (start + scheme.arity) := by
  rw [instanceAt_eq h]
  refine Ty.all_subst_iff.mpr ?_
  intro v hv
  exact Ty.all_var.mpr (Nat.add_lt_add_left (h v hv).1 start)

end Scheme

namespace Check

variable {α β : Type} {aliases : Aliases} {n : Nat}

/-- On a tidy session that has taken the first numbers, a successful step of the checker
is a sequence of session steps, its answer has a property of the numbers taken, and every
solution of the session after it relates the scopes before, the scopes after and the
answer. -/
def Ensures (aliases : Aliases) (n : Nat) (step : Check α) (p : Nat → α → Prop)
    (R : (TypeVar → Ty) → Scopes → Scopes → α → Prop) : Prop :=
  ∀ before a after, n ≤ before.next → before.Tidy aliases → step.Gives before a after →
    before.Reaches aliases after ∧ p after.next a ∧
      ∀ σ, after.Solves aliases σ → R σ before.scopes after.scopes a

namespace Ensures

variable {p : Nat → α → Prop} {q : Nat → β → Prop}
  {R S : (TypeVar → Ty) → Scopes → Scopes → α → Prop}
  {T : (TypeVar → Ty) → Scopes → Scopes → β → Prop}

/-- What the first step has shown is at hand when the rest has to show the goal. -/
theorem bind {step : Check α} {next : α → Check β} (hfree : aliases.VarFree)
    (hstep : step.Ensures aliases n p R)
    (hnext : ∀ m a, n ≤ m → p m a → (next a).Ensures aliases m q fun σ middle after b =>
      ∀ before, R σ before middle a → T σ before after b) :
    (step >>= next).Ensures aliases n q T := by
  intro before b after hn htidy hgives
  obtain ⟨a, middle, hfirst, hsecond⟩ := gives_bind.mp hgives
  obtain ⟨hreaches, ha, hR⟩ := hstep before a middle hn htidy hfirst
  have hle := Nat.le_trans hn hreaches.next_le
  have htidy' := hreaches.tidy hfree htidy
  obtain ⟨hreaches', hb, hT⟩ :=
    hnext middle.next a hle ha middle b after (Nat.le_refl _) htidy' hsecond
  refine ⟨hreaches.trans hreaches', hb, ?_⟩
  intro σ hσ
  exact hT σ hσ before.scopes (hR σ (hreaches'.solves hfree htidy' hσ))

theorem mono {step : Check α} (h : step.Ensures aliases n p R)
    (himp : ∀ σ before after a, R σ before after a → S σ before after a) :
    step.Ensures aliases n p S := by
  intro before a after hn htidy hgives
  obtain ⟨hreaches, ha, hR⟩ := h before a after hn htidy hgives
  exact ⟨hreaches, ha, fun σ hσ => himp σ _ _ a (hR σ hσ)⟩

theorem pure {a : α} (h : ∀ m, n ≤ m → p m a) (hR : ∀ σ scopes, R σ scopes scopes a) :
    (Pure.pure a : Check α).Ensures aliases n p R := by
  intro before b after hn _ hgives
  obtain ⟨rfl, rfl⟩ := gives_pure.mp hgives
  exact ⟨.refl _, h _ hn, fun σ _ => hR σ _⟩

theorem throw {error : TypeError} :
    (MonadExcept.throw error : Check α).Ensures aliases n p R := by
  intro before a after _ _ hgives
  exact (gives_throw.mp hgives).elim

/-- A step that looks at the session first. -/
theorem get {next : Session → Check α}
    (h : ∀ session, (next session).Ensures aliases n p fun σ before after a =>
      before = session.scopes → R σ before after a) :
    (MonadState.get >>= next : Check α).Ensures aliases n p R := by
  intro before a after hn htidy hgives
  obtain ⟨hreaches, ha, hR⟩ := h before before a after hn htidy (gives_get_bind.mp hgives)
  exact ⟨hreaches, ha, fun σ hσ => hR σ hσ rfl⟩

theorem inContext {step : Check α} (context : String) (h : step.Ensures aliases n p R) :
    (Check.inContext context step).Ensures aliases n p R :=
  fun before a after hn htidy hgives => h before a after hn htidy (gives_inContext.mp hgives)

end Ensures

/-! ## Primitive steps -/

theorem ensures_fresh (n : Nat) :
    fresh.Ensures aliases n Ty.Below fun _ before after _ => after = before := by
  intro before t after _ _ hgives
  obtain ⟨rfl, rfl⟩ := gives_fresh.mp hgives
  exact ⟨.step (.advance (Nat.le_succ _)), Ty.all_var.mpr (Nat.lt_succ_self _), fun _ _ => rfl⟩

theorem ensures_freshNumeric (n : Nat) :
    freshNumeric.Ensures aliases n Ty.Below fun σ before after t =>
      after = before ∧ (Discipline.lenient aliases).number (t.subst σ) := by
  intro before t after _ _ hgives
  obtain ⟨rfl, rfl⟩ := gives_freshNumeric.mp hgives
  refine ⟨.step (.literal before), Ty.all_var.mpr (Nat.lt_succ_self _), ?_⟩
  intro σ hσ
  exact ⟨rfl, hσ.numeric _ (List.mem_cons_self)⟩

theorem ensures_freshFor (hfree : aliases.VarFree) (xs : List α) (n : Nat) :
    (freshFor xs).Ensures aliases n (fun m ts => ∀ t ∈ ts, t.Below m) fun _ before after ts =>
      after = before ∧ ts.length = xs.length := by
  induction xs generalizing n with
  | nil => exact .pure (by simp) (by simp)
  | cons x xs ih =>
      refine (ensures_fresh n).bind hfree fun m t _ ht => ?_
      refine (ih m).bind hfree fun k ts hk hts => ?_
      refine .pure ?_ ?_
      · intro l hl
        exact List.forall_mem_cons.mpr
          ⟨ht.of_le (Nat.le_trans hk hl), fun t' ht' => (hts t' ht').of_le hl⟩
      · rintro σ scopes _ ⟨rfl, hlength⟩ _ rfl
        exact ⟨rfl, congrArg Nat.succ hlength⟩

/-- A lowered type is an instance of the written one wherever the names have values. -/
theorem ensures_lowering {names : Table String TypeVar} (term : TypeTerm)
    (hnames : (⟨names, n⟩ : Naming).Below) :
    (lowering names term.lower).Ensures aliases n
      (fun m answer => answer.1.Below m ∧ (⟨answer.2, m⟩ : Naming).Below)
      fun σ before after answer => after = before ∧
        ∀ ρ, (⟨answer.2, 0⟩ : Naming).Values σ ρ →
          (⟨names, 0⟩ : Naming).Values σ ρ ∧ term.Instance ρ (answer.1.subst σ) := by
  intro before answer after hn _ hgives
  obtain ⟨rfl, rfl⟩ := gives_lowering.mp hgives
  have hgrows := term.grows_lower ⟨names, before.next⟩
  have hbelow : (⟨names, before.next⟩ : Naming).Below :=
    fun name v hv => Nat.lt_of_lt_of_le (hnames name v hv) hn
  refine ⟨.step (.advance hgrows.next_le), ⟨term.below_lower _ hbelow, hgrows.below hbelow⟩, ?_⟩
  intro σ _
  exact ⟨rfl, fun ρ hρ => ⟨hgrows.values hρ, term.instance_lower _ hρ⟩⟩

theorem ensures_resolve {t : Ty} (ht : t.Below n) :
    (resolve t).Ensures aliases n Ty.Below fun σ before after u =>
      after = before ∧ aliases.Equal (u.subst σ) (t.subst σ) := by
  intro before u after hn htidy hgives
  obtain ⟨rfl, rfl⟩ := gives_resolve.mp hgives
  refine ⟨.refl _, htidy.subst.apply (ht.of_le hn), ?_⟩
  intro σ hσ
  exact ⟨rfl, hσ.subst.apply (Aliases.Equal.congruence aliases) t⟩

theorem ensures_constrain (hfree : aliases.VarFree) {literals : Arrangement TypeVar}
    {expected found : Ty} (hexpected : expected.Below n) (hfound : found.Below n) :
    (constrain aliases literals expected found).Ensures aliases n (fun _ _ => True)
      fun σ before after _ => after = before ∧
        aliases.Equal (expected.subst σ) (found.subst σ) := by
  intro before u after hn htidy hgives
  obtain ⟨subst, hequate, rfl⟩ := gives_constrain.mp hgives
  refine ⟨.step (.accept (hexpected.of_le hn) (hfound.of_le hn) hequate), trivial, ?_⟩
  intro σ hσ
  exact ⟨rfl, (Session.solvedBy_of_equate hfree htidy.solved hequate hσ.subst).2⟩

theorem ensures_bindName {t : Ty} (name : String) (ht : t.Below n) :
    (bindName name t).Ensures aliases n (fun _ _ => True) fun _ before after _ =>
      after = before.insert name t := by
  intro before u after hn htidy hgives
  obtain rfl := gives_bindName.mp hgives
  refine ⟨.step (.rescope ?_), trivial, fun _ _ => rfl⟩
  intro other t' ht'
  rw [Scopes.lookup_insert] at ht'
  split at ht'
  · cases ht'
    exact ht.of_le hn
  · exact htidy.scopes other t' ht'

/-- What a step shows in a scope of its own, it shows of the scopes around it. -/
theorem ensures_inNewScope {step : Check α} {p : Nat → α → Prop}
    {R : (TypeVar → Ty) → Scopes → Scopes → α → Prop} (hfree : aliases.VarFree)
    (hstep : step.Ensures aliases n p R) :
    (inNewScope step).Ensures aliases n p fun σ before after a =>
      after = before ∧ ∃ inside, R σ before.push inside a := by
  intro before a after hn htidy hgives
  obtain ⟨inside, hinside, rfl⟩ := gives_inNewScope.mp hgives
  have hpush : before.Step aliases { before with scopes := before.scopes.push } := by
    refine .rescope ?_
    intro name t ht
    rw [Scopes.lookup_push] at ht
    exact htidy.scopes name t ht
  obtain ⟨hreaches, ha, hR⟩ :=
    hstep { before with scopes := before.scopes.push } a inside hn (hpush.tidy hfree htidy) hinside
  have hpop : inside.Step aliases { inside with scopes := before.scopes } :=
    .rescope fun name t ht => (htidy.scopes name t ht).of_le hreaches.next_le
  refine ⟨((Session.Reaches.step hpush).trans hreaches).trans (.step hpop), ha, ?_⟩
  intro σ hσ
  exact ⟨rfl, inside.scopes, hR σ ⟨hσ.subst, hσ.numeric⟩⟩

end Check

namespace Setting

open Check

variable (setting : Setting) {n : Nat}

/-! ## Names -/

/-- Whether a name is declared depends on which names are bound, not on their types. -/
theorem declares_eq_false {Γ : Context} {scopes : Scopes} {name : String}
    (h : Γ name = none ↔ scopes.lookup name = none) :
    setting.declares scopes name = false ↔ setting.Undeclared Γ name := by
  simp only [declares, Undeclared, h, Table.contains, Bool.or_eq_false_iff,
    Option.isSome_eq_false_iff, Option.isNone_iff_eq_none, and_assoc]

/-- Where the type of a name comes from, and the next free number after looking it up. -/
inductive Found (session : Session) (name : String) : Ty → Nat → Prop where
  | bound {t : Ty} : session.scopes.lookup name = some t → Found session name t session.next
  | signature {signature : Signature} {inputs : List Ty} {output : Ty} {naming : Naming} :
      session.scopes.lookup name = none →
      setting.globals.signatures.get? name = some signature →
      signature.lower.run ⟨{}, session.next⟩ = ((inputs, output), naming) →
      Found session name (.curried inputs output) naming.next
  | constructor {info : ConstructorInfo} {fields : List Ty} {naming : Naming} :
      session.scopes.lookup name = none → setting.globals.signatures.get? name = none →
      setting.globals.constructors.get? name = some info →
      (TypeTerm.lowerAll (info.fields.map Field.value)).run ⟨{}, session.next⟩ =
        (fields, naming) →
      Found session name (.curried fields (.con info.record)) naming.next
  | builtin {scheme : Scheme} : setting.Undeclared session.scopes.lookup name →
      Prelude.builtin? name = some scheme →
      Found session name (scheme.instanceAt session.next) (session.next + scheme.arity)
  | unknown : setting.Undeclared session.scopes.lookup name → Prelude.builtin? name = none →
      Found session name (.var ⟨session.next, none⟩) (session.next + 1)

theorem found_of_lookup {name : String} {before after : Session} {t : Ty}
    (h : (setting.lookup name).Gives before t after) :
    ∃ next, setting.Found before name t next ∧ after = { before with next } := by
  unfold lookup at h
  rw [gives_get_bind] at h
  split at h
  · next hscope =>
      obtain ⟨rfl, rfl⟩ := gives_pure.mp h
      exact ⟨_, .bound hscope, rfl⟩
  · next hscope =>
      split at h
      · next hsignature =>
          obtain ⟨answer, middle, hlower, h⟩ := gives_bind.mp h
          obtain ⟨rfl, rfl⟩ := gives_lowering.mp hlower
          obtain ⟨rfl, rfl⟩ := gives_pure.mp h
          exact ⟨_, .signature hscope hsignature rfl, rfl⟩
      · next hsignature =>
          split at h
          · next hconstructor =>
              obtain ⟨answer, middle, hlower, h⟩ := gives_bind.mp h
              obtain ⟨rfl, rfl⟩ := gives_lowering.mp hlower
              obtain ⟨rfl, rfl⟩ := gives_pure.mp h
              exact ⟨_, .constructor hscope hsignature hconstructor rfl, rfl⟩
          · next hconstructor =>
              split at h
              · next hbuiltin =>
                  obtain ⟨types, middle, hfresh, h⟩ := gives_bind.mp h
                  rw [gives_freshFor, List.length_range] at hfresh
                  obtain ⟨rfl, rfl⟩ := hfresh
                  obtain ⟨rfl, rfl⟩ := gives_pure.mp h
                  exact ⟨_, .builtin ⟨hscope, hsignature, hconstructor⟩ hbuiltin, rfl⟩
              · next hbuiltin =>
                  obtain ⟨rfl, rfl⟩ := gives_fresh.mp h
                  exact ⟨_, .unknown ⟨hscope, hsignature, hconstructor⟩ hbuiltin, rfl⟩

theorem lookup_of_found {name : String} {before : Session} {t : Ty} {next : Nat}
    (h : setting.Found before name t next) :
    (setting.lookup name).Gives before t { before with next } := by
  unfold lookup
  rw [gives_get_bind]
  cases h with
  | bound hscope =>
      rw [hscope]
      exact gives_pure.mpr ⟨rfl, rfl⟩
  | signature hscope hsignature hlower =>
      simp only [hscope, hsignature]
      refine gives_bind.mpr ⟨_, _, gives_lowering.mpr ⟨rfl, rfl⟩, ?_⟩
      rw [hlower]
      exact gives_pure.mpr ⟨rfl, rfl⟩
  | constructor hscope hsignature hconstructor hlower =>
      simp only [hscope, hsignature, hconstructor]
      refine gives_bind.mpr ⟨_, _, gives_lowering.mpr ⟨rfl, rfl⟩, ?_⟩
      rw [hlower]
      exact gives_pure.mpr ⟨rfl, rfl⟩
  | builtin hundeclared hbuiltin =>
      obtain ⟨hscope, hsignature, hconstructor⟩ := hundeclared
      simp only [hscope, hsignature, hconstructor, hbuiltin]
      refine gives_bind.mpr ⟨_, _, gives_freshFor.mpr ⟨rfl, rfl⟩, ?_⟩
      rw [List.length_range]
      exact gives_pure.mpr ⟨rfl, rfl⟩
  | unknown hundeclared hbuiltin =>
      obtain ⟨hscope, hsignature, hconstructor⟩ := hundeclared
      simp only [hscope, hsignature, hconstructor, hbuiltin]
      exact gives_fresh.mpr ⟨rfl, rfl⟩

/-- A name has the type that was found for it. -/
theorem ensures_lookup (name : String) (n : Nat) :
    (setting.lookup name).Ensures setting.aliases n Ty.Below fun σ before after t =>
      after = before ∧ setting.Named (before.under σ) name (t.subst σ) := by
  intro before t after _ htidy hgives
  obtain ⟨next, hfound, rfl⟩ := setting.found_of_lookup hgives
  have hnone := below_no_names before.next
  suffices h : before.next ≤ next ∧ t.Below next ∧
      ∀ σ, setting.Named (before.scopes.under σ) name (t.subst σ) from
    ⟨.step (.advance h.1), h.2.1, fun σ _ => ⟨rfl, h.2.2 σ⟩⟩
  have hunder : before.scopes.lookup name = none → ∀ σ, before.scopes.under σ name = none :=
    fun hscope σ => (Scopes.under_eq_none σ).mpr hscope
  cases hfound with
  | bound hscope =>
      refine ⟨Nat.le_refl _, htidy.scopes name t hscope, fun σ => .bound ?_⟩
      simp [Scopes.under, hscope]
  | @signature signature _ _ naming hscope hsignature hlower =>
      have hgrows := signature.grows_lower ⟨{}, before.next⟩
      obtain ⟨hinputs, houtput⟩ := signature.below_lower ⟨{}, before.next⟩ hnone
      rw [hlower] at hgrows hinputs houtput
      refine ⟨hgrows.next_le, Ty.all_curried hinputs houtput, ?_⟩
      intro σ
      have hinstances := signature.instances_lower ⟨{}, before.next⟩
        (Naming.values_valueOf (signature.lower.run ⟨{}, before.next⟩).2 σ)
      rw [hlower] at hinstances
      rw [Ty.subst_curried, ← Ty.substAll_eq_map]
      exact .signature (hunder hscope σ) hsignature hinstances.1 hinstances.2
  | @constructor info _ _ hscope hsignature hconstructor hlower =>
      have hgrows := TypeTerm.grows_lowerAll (info.fields.map Field.value) ⟨{}, before.next⟩
      have hfields := TypeTerm.below_lowerAll (info.fields.map Field.value) ⟨{}, before.next⟩ hnone
      rw [hlower] at hgrows hfields
      refine ⟨hgrows.next_le, Ty.all_curried hfields Ty.all_con, ?_⟩
      intro σ
      have hinstances := TypeTerm.instances_lowerAll (info.fields.map Field.value)
        ⟨{}, before.next⟩ (Naming.values_valueOf _ σ)
      rw [hlower] at hinstances
      rw [Ty.subst_curried, ← Ty.substAll_eq_map]
      exact .constructor (hunder hscope σ) hsignature hconstructor hinstances
  | @builtin scheme hundeclared hbuiltin =>
      obtain ⟨hscope, hsignature, hconstructor⟩ := hundeclared
      refine ⟨Nat.le_add_right _ _, Scheme.below_instanceAt (Prelude.all_of_builtin? hbuiltin), ?_⟩
      intro σ
      unfold Scheme.instanceAt Scheme.instantiate
      rw [Ty.subst_subst]
      exact .builtin _ ⟨hunder hscope σ, hsignature, hconstructor⟩ hbuiltin
  | unknown hundeclared hbuiltin =>
      obtain ⟨hscope, hsignature, hconstructor⟩ := hundeclared
      refine ⟨Nat.le_succ _, Ty.all_var.mpr (Nat.lt_succ_self _), ?_⟩
      intro σ
      exact .unknown _ ⟨hunder hscope σ, hsignature, hconstructor⟩ hbuiltin

/-! ## Equations and operands -/

theorem ensures_constrainIn (hfree : setting.aliases.VarFree) (context : String)
    {expected found : Ty} (hexpected : expected.Below n) (hfound : found.Below n) :
    (setting.constrainIn context expected found).Ensures setting.aliases n (fun _ _ => True)
      fun σ before after _ => after = before ∧
        setting.aliases.Equal (expected.subst σ) (found.subst σ) :=
  (ensures_constrain hfree hexpected hfound).inContext context

/-- An operand is accepted when its type is still open or in the domain of the operator. -/
theorem gives_checkOperand {operator : String} {operand t : Ty} {allowed : Ty → Bool}
    {before after : Session} :
    (setting.checkOperand operator operand allowed).Gives before t after ↔
      (t = before.subst.apply operand ∧ after = before) ∧
        ((setting.aliases.expand t).isVar = true ∨ allowed (setting.aliases.expand t) = true) := by
  unfold checkOperand
  rw [gives_bind]
  constructor
  · rintro ⟨_, _, hresolve, h⟩
    obtain ⟨rfl, rfl⟩ := gives_resolve.mp hresolve
    split at h
    · next hexpand =>
        obtain ⟨rfl, rfl⟩ := gives_pure.mp h
        exact ⟨⟨rfl, rfl⟩, .inl (by rw [hexpand]; rfl)⟩
    · split at h
      · next hallowed =>
          obtain ⟨rfl, rfl⟩ := gives_pure.mp h
          exact ⟨⟨rfl, rfl⟩, .inr hallowed⟩
      · exact (gives_throw.mp h).elim
  · rintro ⟨⟨rfl, rfl⟩, haccepted⟩
    refine ⟨_, _, gives_resolve.mpr ⟨rfl, rfl⟩, ?_⟩
    split
    · exact gives_pure.mpr ⟨rfl, rfl⟩
    · next hopen =>
        have hallowed : allowed (setting.aliases.expand (after.subst.apply operand)) = true := by
          refine haccepted.resolve_left ?_
          intro hvar
          obtain ⟨v, hv⟩ := Ty.isVar_iff.mp hvar
          exact hopen v hv
        rw [if_pos hallowed]
        exact gives_pure.mpr ⟨rfl, rfl⟩

theorem ensures_checkOperand (operator : String) (allowed : Ty → Bool) {operand : Ty}
    (h : operand.Below n) :
    (setting.checkOperand operator operand allowed).Ensures setting.aliases n Ty.Below
      fun σ before after t => after = before ∧
        setting.aliases.Equal (t.subst σ) (operand.subst σ) := by
  intro before t after hn htidy hgives
  obtain ⟨⟨rfl, rfl⟩, _⟩ := setting.gives_checkOperand.mp hgives
  refine ⟨.refl _, htidy.subst.apply (h.of_le hn), ?_⟩
  intro σ hσ
  exact ⟨rfl, hσ.subst.apply (Aliases.Equal.congruence setting.aliases) operand⟩

/-- Operands are required to have one type, and one of them is looked at. -/
theorem ensures_uniform (hfree : setting.aliases.VarFree) (context operator : String)
    (allowed : Ty → Bool) {left right : Ty} (hleft : left.Below n) (hright : right.Below n) :
    (do
      setting.constrainIn context left right
      setting.checkOperand operator left allowed : Check Ty).Ensures setting.aliases n Ty.Below
      fun σ before after t => after = before ∧
        setting.aliases.Equal (left.subst σ) (right.subst σ) ∧
        setting.aliases.Equal (t.subst σ) (left.subst σ) := by
  refine (setting.ensures_constrainIn hfree _ hleft hright).bind hfree fun m _ hm _ => ?_
  refine (setting.ensures_checkOperand operator allowed (hleft.of_le hm)).mono ?_
  rintro σ middle after t ⟨rfl, hresult⟩ before ⟨rfl, hequal⟩
  exact ⟨rfl, hequal, hresult⟩

/-- The operands of an operation and its result have types that the operator relates. -/
theorem ensures_operated (hfree : setting.aliases.VarFree) (operator : Operator)
    {left right : Ty} (hleft : left.Below n) (hright : right.Below n) :
    (setting.operated operator left right).Ensures setting.aliases n Ty.Below
      fun σ before after t => after = before ∧
        ∃ α β τ, (Discipline.lenient setting.aliases).Operates operator α β τ ∧
          setting.aliases.Equal (left.subst σ) α ∧ setting.aliases.Equal (right.subst σ) β ∧
          setting.aliases.Equal τ (t.subst σ) := by
  cases operator with
  | arithmetic operator =>
      refine (setting.ensures_uniform hfree _ _ _ hleft hright).mono ?_
      rintro σ before after t ⟨rfl, hequal, hresult⟩
      exact ⟨rfl, _, _, _, .arithmetic trivial, .refl _, hequal.symm, hresult.symm⟩
  | bitwise operator =>
      refine (setting.ensures_uniform hfree _ _ _ hleft hright).mono ?_
      rintro σ before after t ⟨rfl, hequal, hresult⟩
      exact ⟨rfl, _, _, _, .bitwise trivial, .refl _, hequal.symm, hresult.symm⟩
  | comparison operator =>
      refine (setting.ensures_constrainIn hfree _ hleft hright).bind hfree fun m _ _ _ => ?_
      refine .pure (fun _ _ => Ty.all_con) ?_
      rintro σ scopes before ⟨rfl, hequal⟩
      exact ⟨rfl, _, _, _, .comparison operator _, .refl _, hequal.symm, .refl _⟩
  | logical operator =>
      refine (setting.ensures_constrainIn hfree _ Ty.all_con hleft).bind hfree fun m _ hm _ => ?_
      refine (setting.ensures_constrainIn hfree _ Ty.all_con (hright.of_le hm)).bind hfree
        fun _ _ _ _ => ?_
      refine .pure (fun _ _ => Ty.all_con) ?_
      rintro σ scopes middle ⟨rfl, hequal₂⟩ before ⟨rfl, hequal₁⟩
      exact ⟨rfl, _, _, _, .logical operator, hequal₁.symm, hequal₂.symm, .refl _⟩
  | concat =>
      refine (setting.ensures_uniform hfree _ _ _ hleft hright).mono ?_
      rintro σ before after t ⟨rfl, hequal, hresult⟩
      exact ⟨rfl, _, _, _, .concat trivial, .refl _, hequal.symm, hresult.symm⟩

/-- The constructor of a pattern is found without a change to the session. -/
theorem gives_constructorFor {name : String} {given : Nat} {before after : Session}
    {info : ConstructorInfo} :
    (setting.constructorFor name given).Gives before info after ↔
      (setting.globals.constructors.get? name = some info ∧ info.fields.length = given) ∧
        before = after := by
  unfold constructorFor
  cases hget : setting.globals.constructors.get? name with
  | none => simp
  | some found =>
      dsimp only
      split
      · next hlength =>
          rw [gives_pure]
          constructor
          · rintro ⟨rfl, rfl⟩
            exact ⟨⟨rfl, hlength⟩, rfl⟩
          · rintro ⟨⟨heq, _⟩, rfl⟩
            cases heq
            exact ⟨rfl, rfl⟩
      · next hlength =>
          rw [gives_throw]
          constructor
          · exact False.elim
          · rintro ⟨⟨heq, hgiven⟩, _⟩
            cases heq
            exact hlength hgiven

theorem ensures_constructorFor (name : String) (given n : Nat) :
    (setting.constructorFor name given).Ensures setting.aliases n
      (fun _ info => setting.globals.constructors.get? name = some info ∧
        info.fields.length = given)
      fun _ before after _ => after = before := by
  intro before info after _ _ hgives
  obtain ⟨hinfo, rfl⟩ := setting.gives_constructorFor.mp hgives
  exact ⟨.refl _, hinfo, fun _ _ => rfl⟩

end Setting

end Rubric
