import Rubric.Proofs.Checker.Achieves
import Rubric.Proofs.Checker.Clause

/-!
# Completeness of the checker

What has a type by the rules is accepted. Inference takes variables where the rules take
types; a derivation says which types these are, and with them as values every equation
that inference submits holds, every literal stays numeric and every operand is in the
domain of its operator. So no rule can be applied without inference going through, and
this carries over from the parts of an expression to the whole by one lemma for each rule.
-/

namespace Rubric

namespace Stage

/-- The stage after the variables of a polymorphic type, which take given values. -/
def instantiate (p : Stage) (arity : Nat) (f : TypeVar → Ty) : Stage :=
  ⟨p.next + arity, fun v => if v.id < p.next then p.value v else f ⟨v.id - p.next, none⟩⟩

theorem le_instantiate (p : Stage) (arity : Nat) (f : TypeVar → Ty) :
    p ≤ p.instantiate arity f :=
  ⟨Nat.le_add_right _ _, fun _ hv => if_pos hv⟩

theorem subst_instantiate (p : Stage) (f : TypeVar → Ty) {scheme : Scheme}
    (h : scheme.body.All fun v => v.id < scheme.arity ∧ v.name = none) :
    (scheme.instanceAt p.next).subst (p.instantiate scheme.arity f).value =
      scheme.body.subst f := by
  rw [Scheme.instanceAt_eq h, Ty.subst_subst]
  refine Ty.subst_congr fun v hv => ?_
  obtain ⟨id, name⟩ := v
  obtain ⟨_, rfl⟩ := h ⟨id, name⟩ hv
  have hlt : ¬ p.next + id < p.next := Nat.not_lt.mpr (Nat.le_add_right _ _)
  simp [instantiate, hlt]

end Stage

namespace Setting

open Check

variable (setting : Setting) {Γ Δ Ξ : Context} {p : Stage} {session : Session}

/-! ## Names -/

/-- The variables of a lowered signature can take the values of any instance of it. -/
theorem exists_means_lower {signature : Signature} {inputs : List Ty} {output : Ty}
    {naming : Naming} (hlower : signature.lower.run ⟨{}, p.next⟩ = ((inputs, output), naming))
    {ρ : String → Ty} {τs : List Ty} {τ : Ty}
    (hτs : TypeTerm.Instances ρ signature.inputs τs) (hτ : signature.output.Instance ρ τ) :
    ∃ q, q.next = naming.next ∧ p ≤ q ∧ List.Forall₂ (setting.aliases.Means q) inputs τs ∧
      setting.aliases.Means q output τ := by
  have hnothing := p.knows_nothing ρ
  obtain ⟨hbelow, hbelow'⟩ := signature.below_lower ⟨{}, p.next⟩ hnothing.below
  have hgrows := signature.grows_lower ⟨{}, p.next⟩
  obtain ⟨θ, hextends, heq, heq'⟩ :=
    signature.exists_values_lower _ hτs hτ hnothing.below hnothing.values
  rw [hlower] at hbelow hbelow' hgrows heq heq'
  exact ⟨⟨naming.next, θ⟩, rfl, ⟨hgrows.next_le, hextends⟩, Aliases.means_substAll hbelow heq,
    .of_subst hbelow' heq'⟩

theorem exists_found (h : session.Agrees setting.aliases Γ p) {name : String} {τ : Ty}
    (hnamed : setting.Named Γ name τ) :
    ∃ t q, setting.Found session name t q.next ∧ p ≤ q ∧ setting.aliases.Means q t τ := by
  cases hnamed with
  | bound hbound =>
      obtain ⟨t, hlookup, ht⟩ := h.means_of_lookup hbound
      exact ⟨t, p, h.next ▸ .bound hlookup, le_refl p, ht⟩
  | @signature signature _ _ _ hunbound hsignature hinputs houtput =>
      rcases hlower : signature.lower.run ⟨{}, p.next⟩ with ⟨⟨inputs, output⟩, naming⟩
      obtain ⟨q, hnext, hpq, hmeans, hmeans'⟩ :=
        setting.exists_means_lower hlower hinputs houtput
      rw [← h.next] at hlower
      have hfound : setting.Found session name (.curried inputs output) naming.next :=
        .signature ((h.eq_none_iff name).mp hunbound) hsignature hlower
      exact ⟨_, q, hnext ▸ hfound, hpq, .curried hmeans hmeans'⟩
  | @constructor info ρ fields hunbound hsignature hconstructor hfields =>
      have hnothing := p.knows_nothing ρ
      have hbelow := TypeTerm.below_lowerAll (info.fields.map Field.value) ⟨{}, p.next⟩
        hnothing.below
      have hgrows := TypeTerm.grows_lowerAll (info.fields.map Field.value) ⟨{}, p.next⟩
      obtain ⟨θ, hextends, heq, _⟩ :=
        TypeTerm.exists_values_lowerAll hfields _ _ hnothing.below hnothing.values
      refine ⟨_, ⟨_, θ⟩, .constructor ((h.eq_none_iff name).mp hunbound) hsignature
        hconstructor rfl, ?_, ?_⟩
      · rw [h.next]
        exact ⟨hgrows.next_le, hextends⟩
      · rw [h.next]
        exact .curried (Aliases.means_substAll hbelow heq) (.con _)
  | @builtin scheme f hundeclared hbuiltin =>
      obtain ⟨hunbound, hdeclared⟩ := hundeclared
      have hvars := Prelude.all_of_builtin? hbuiltin
      have hmeans : setting.aliases.Means (p.instantiate scheme.arity f)
          (scheme.instanceAt p.next) (scheme.body.subst f) :=
        .of_subst (Scheme.below_instanceAt hvars) (p.subst_instantiate f hvars)
      have hfound : setting.Found session name _ _ :=
        .builtin ⟨(h.eq_none_iff name).mp hunbound, hdeclared⟩ hbuiltin
      rw [h.next] at hfound
      exact ⟨_, _, hfound, p.le_instantiate _ f, hmeans⟩
  | unknown _ hundeclared hbuiltin =>
      obtain ⟨hunbound, hdeclared⟩ := hundeclared
      have hmeans := setting.aliases.means_push p τ
      have hfound : setting.Found session name _ _ :=
        .unknown ⟨(h.eq_none_iff name).mp hunbound, hdeclared⟩ hbuiltin
      rw [h.next] at hfound
      exact ⟨_, _, hfound, p.le_push τ, hmeans⟩

theorem achieves_lookup (hfree : setting.aliases.VarFree)
    (h : session.Agrees setting.aliases Γ p) {name : String} {τ : Ty}
    (hnamed : setting.Named Γ name τ) :
    (setting.lookup name).Achieves setting.aliases session p Γ fun q t =>
      setting.aliases.Means q t τ := by
  obtain ⟨t, q, hfound, hpq, ht⟩ := setting.exists_found h hnamed
  exact ⟨t, _, q, setting.lookup_of_found hfound, hpq, h.advance hfree hpq, ht⟩

/-! ## Expressions and patterns that go through -/

/-- Inference gives an expression a type that means a given one. -/
def Infers (Γ : Context) (e : Expression) (τ : Ty) : Prop :=
  ∀ session p, session.Agrees setting.aliases Γ p →
    (setting.inferExpression e).Achieves setting.aliases session p Γ fun q t =>
      setting.aliases.Means q t τ

/-- A pattern can be matched against every type that means a given one. -/
def Binds (Γ : Context) (pattern : Pattern) (τ : Ty) (Δ : Context) : Prop :=
  ∀ session p t, session.Agrees setting.aliases Γ p → setting.aliases.Means p t τ →
    (setting.bindPattern pattern t).Achieves setting.aliases session p Δ fun _ _ => True

/-- Patterns can be matched one after the other. -/
inductive BindsAll : Context → List Pattern → List Ty → Context → Prop where
  | nil {Γ : Context} : BindsAll Γ [] [] Γ
  | cons {Γ Δ Ξ : Context} {pattern : Pattern} {rest : List Pattern} {τ : Ty} {τs : List Ty} :
      setting.Binds Γ pattern τ Δ → BindsAll Δ rest τs Ξ →
      BindsAll Γ (pattern :: rest) (τ :: τs) Ξ

theorem infers_convert {e : Expression} {τ τ' : Ty} (h : setting.Infers Γ e τ)
    (heq : setting.aliases.normal τ = setting.aliases.normal τ') : setting.Infers Γ e τ' :=
  fun session p hsession => (h session p hsession).mono fun _ _ _ ht => ht.convert heq

theorem binds_convert {pattern : Pattern} {τ τ' : Ty} (h : setting.Binds Γ pattern τ Δ)
    (heq : setting.aliases.normal τ = setting.aliases.normal τ') :
    setting.Binds Γ pattern τ' Δ :=
  fun session p t hsession ht => h session p t hsession (ht.convert heq.symm)

theorem achieves_inferAll {elements : List Expression} {τs : List Ty}
    (helements : List.Forall₂ (setting.Infers Γ) elements τs)
    (h : session.Agrees setting.aliases Γ p) :
    (setting.inferAll elements).Achieves setting.aliases session p Γ fun q ts =>
      List.Forall₂ (setting.aliases.Means q) ts τs := by
  induction helements generalizing session p with
  | nil =>
      rw [inferAll]
      exact .pure h .nil
  | cons he _ ih =>
      rw [inferAll]
      refine (he session p h).bind fun t s₁ q₁ _ h₁ ht => ?_
      refine (ih h₁).bind fun ts s₂ q₂ h₁₂ h₂ hts => ?_
      exact .pure h₂ (.cons (ht.mono h₁₂) hts)

theorem infers_tuple {elements : List Expression} {τs : List Ty}
    (helements : List.Forall₂ (setting.Infers Γ) elements τs) :
    setting.Infers Γ (.tuple elements) (.tuple τs) := by
  intro session p h
  rw [inferExpression]
  refine (setting.achieves_inferAll helements h).bind ?_
  exact fun _ _ _ _ hafter hts => .pure hafter (.tuple hts)

theorem BindsAll.length_eq {patterns : List Pattern} {τs : List Ty}
    (h : setting.BindsAll Γ patterns τs Δ) : patterns.length = τs.length := by
  induction h with
  | nil => rfl
  | cons _ _ ih => exact congrArg Nat.succ ih

/-- Types behind the ones that patterns are given for are not looked at. -/
theorem achieves_bindAll {patterns : List Pattern} {τs ts : List Ty}
    (hpatterns : setting.BindsAll Γ patterns τs Δ) (h : session.Agrees setting.aliases Γ p)
    (hts : List.Forall₂ (setting.aliases.Means p) ts τs) (others : List Ty) :
    (setting.bindAll patterns (ts ++ others)).Achieves setting.aliases session p Δ
      fun _ _ => True := by
  induction hpatterns generalizing session p ts with
  | nil =>
      rw [bindAll]
      · exact .pure h trivial
      · simp
  | cons hpattern _ ih =>
      cases hts with
      | cons ht hts =>
          rw [List.cons_append, bindAll]
          refine (hpattern session p _ h ht).bind fun _ s₁ q₁ h₀₁ h₁ _ => ?_
          exact ih h₁ (Aliases.means_all_mono hts h₀₁)

theorem achieves_bindEach {patterns : List Pattern} {τs : List Ty}
    (hpatterns : setting.BindsAll Γ patterns τs Δ) (h : session.Agrees setting.aliases Γ p)
    {t τ : Ty} (ht : setting.aliases.Means p t τ) (hτs : ∀ τ' ∈ τs, τ' = τ) :
    (setting.bindEach patterns t).Achieves setting.aliases session p Δ fun _ _ => True := by
  induction hpatterns generalizing session p with
  | nil =>
      rw [bindEach]
      exact .pure h trivial
  | cons hpattern _ ih =>
      obtain ⟨rfl, hτs⟩ := List.forall_mem_cons.mp hτs
      rw [bindEach]
      refine (hpattern session p t h ht).bind fun _ s₁ q₁ h₀₁ h₁ _ => ?_
      exact ih h₁ (ht.mono h₀₁) hτs

theorem achieves_bindFields (hfree : setting.aliases.VarFree) {patterns : List Pattern}
    {τs : List Ty} (hpatterns : setting.BindsAll Γ patterns τs Δ)
    (h : session.Agrees setting.aliases Γ p) {fields : List Field} {ρ : String → Ty}
    {names : Table String TypeVar}
    (hfields : TypeTerm.Instances ρ (fields.map Field.value) τs) (hknows : p.Knows names ρ) :
    (setting.bindFields patterns fields names).Achieves setting.aliases session p Δ
      fun _ _ => True := by
  induction hpatterns generalizing session p fields names with
  | nil =>
      rw [bindFields]
      · exact .pure h trivial
      · simp
  | cons hpattern _ ih =>
      cases fields with
      | nil => cases hfields
      | cons field fields =>
          cases hfields with
          | cons hfield hfields =>
              rw [bindFields]
              refine (achieves_lowering hfree h hfield hknows).bind ?_
              rintro ⟨expected, names'⟩ s₁ q₁ _ h₁ ⟨hexpected, hknows'⟩
              refine (hpattern s₁ q₁ _ h₁ hexpected).bind fun _ s₂ q₂ h₁₂ h₂ _ => ?_
              exact ih h₂ hfields (hknows'.mono h₁₂)

theorem achieves_bindParameters (hfree : setting.aliases.VarFree) {patterns : List Pattern}
    {τs : List Ty} (hpatterns : setting.BindsAll Γ patterns τs Δ)
    (h : session.Agrees setting.aliases Γ p) :
    (setting.bindParameters patterns).Achieves setting.aliases session p Δ fun q ts =>
      List.Forall₂ (setting.aliases.Means q) ts τs := by
  induction hpatterns generalizing session p with
  | nil =>
      rw [bindParameters]
      exact .pure h .nil
  | @cons _ _ _ pattern rest τ τs hpattern _ ih =>
      rw [bindParameters]
      refine (achieves_fresh hfree h τ).bind fun t s₁ q₁ _ h₁ ht => ?_
      refine (hpattern s₁ q₁ t h₁ ht).bind fun _ s₂ q₂ h₁₂ h₂ _ => ?_
      refine (ih h₂).bind fun ts s₃ q₃ h₂₃ h₃ hts => ?_
      exact .pure h₃ (.cons (ht.mono (le_trans h₁₂ h₂₃)) hts)

theorem infers_lambda (hfree : setting.aliases.VarFree) {parameters : List Pattern}
    {body : Expression} {τs : List Ty} {τ : Ty}
    (hparameters : setting.BindsAll Γ parameters τs Δ) (hbody : setting.Infers Δ body τ) :
    setting.Infers Γ (.lambda parameters body) (.curried τs τ) := by
  intro session p h
  have hinside : ∀ inner : Session, inner.Agrees setting.aliases Γ p →
      (do
        let inputs ← setting.bindParameters parameters
        let output ← setting.inferExpression body
        resolve (.curried inputs output) : Check Ty).Achieves setting.aliases inner p Δ
        fun q t => setting.aliases.Means q t (.curried τs τ) := by
    intro inner hinner
    refine (setting.achieves_bindParameters hfree hparameters hinner).bind ?_
    intro inputs s₁ q₁ _ h₁ hinputs
    refine (hbody s₁ q₁ h₁).bind fun output s₂ q₂ h₁₂ h₂ houtput => ?_
    exact achieves_resolve h₂ (.curried (Aliases.means_all_mono hinputs h₁₂) houtput)
  rw [inferExpression]
  exact achieves_inNewScope h hinside

/-! ## Equations and operands

From here on the aliases have no cycles and no variables. -/

section

variable (hfree : setting.aliases.VarFree) (hacyclic : setting.aliases.Acyclic)

include hfree hacyclic

theorem achieves_constrainIn (h : session.Agrees setting.aliases Γ p) (context : String)
    {expected found τ : Ty} (hexpected : setting.aliases.Means p expected τ)
    (hfound : setting.aliases.Means p found τ) :
    (setting.constrainIn context expected found).Achieves setting.aliases session p Γ
      fun _ _ => True :=
  (achieves_constrain hfree hacyclic h hexpected hfound).inContext context

theorem isOneOf_expand {names : List String} {t τ : Ty} (ht : setting.aliases.Means p t τ)
    (hτ : ∃ kind ∈ names, setting.aliases.normal τ = .con kind) :
    (setting.aliases.expand t).isVar = true ∨
      isOneOf names (setting.aliases.expand t) = true := by
  obtain ⟨kind, hkind, hnormal⟩ := hτ
  rcases Aliases.expand_of_value_con hfree hacyclic (ht.value.trans hnormal) with hvar | hcon
  · exact .inl hvar
  · rw [hcon]
    exact .inr (decide_eq_true hkind)

theorem isJoinable_expand {t τ : Ty} (ht : setting.aliases.Means p t τ)
    (hτ : (Discipline.strict setting.aliases).operand .concat τ) :
    (setting.aliases.expand t).isVar = true ∨ isJoinable (setting.aliases.expand t) = true := by
  rcases hτ with ⟨element, hnormal⟩ | hnormal
  · rcases Aliases.expand_of_value_list hfree hacyclic (ht.value.trans hnormal) with
      hvar | ⟨u, hlist⟩
    · exact .inl hvar
    · rw [hlist]
      exact .inr rfl
  · rcases Aliases.expand_of_value_con hfree hacyclic (ht.value.trans hnormal) with hvar | hcon
    · exact .inl hvar
    · rw [hcon]
      exact .inr rfl

/-- Operands of one type are accepted when that type is in the domain of the operator. -/
theorem achieves_uniform (h : session.Agrees setting.aliases Γ p) (context operator : String)
    {allowed : Ty → Bool} {left right τ : Ty} (hleft : setting.aliases.Means p left τ)
    (hright : setting.aliases.Means p right τ)
    (hallowed : ∀ q t, setting.aliases.Means q t τ →
      (setting.aliases.expand t).isVar = true ∨ allowed (setting.aliases.expand t) = true) :
    (do
      setting.constrainIn context left right
      setting.checkOperand operator left allowed : Check Ty).Achieves setting.aliases session p Γ
      fun q t => setting.aliases.Means q t τ := by
  refine (setting.achieves_constrainIn hfree hacyclic h context hleft hright).bind ?_
  intro _ middle q hpq hmiddle _
  obtain ⟨t, after, r, hresolve, hqr, hafter, ht⟩ := achieves_resolve hmiddle (hleft.mono hpq)
  have hgives : (setting.checkOperand operator left allowed).Gives middle t after :=
    setting.gives_checkOperand.mpr ⟨gives_resolve.mp hresolve, hallowed r t ht⟩
  exact ⟨t, after, r, hgives, hqr, hafter, ht⟩

theorem achieves_operated (h : session.Agrees setting.aliases Γ p) {operator : Operator}
    {left right α β τ : Ty} (hleft : setting.aliases.Means p left α)
    (hright : setting.aliases.Means p right β)
    (hoperates : (Discipline.strict setting.aliases).Operates operator α β τ) :
    (setting.operated operator left right).Achieves setting.aliases session p Γ fun q t =>
      setting.aliases.Means q t τ := by
  cases hoperates with
  | arithmetic hoperand =>
      exact setting.achieves_uniform hfree hacyclic h _ _ hleft hright
        fun _ _ ht => setting.isOneOf_expand hfree hacyclic ht hoperand
  | bitwise hoperand =>
      exact setting.achieves_uniform hfree hacyclic h _ _ hleft hright
        fun _ _ ht => setting.isOneOf_expand hfree hacyclic ht hoperand
  | comparison =>
      refine (setting.achieves_constrainIn hfree hacyclic h _ hleft hright).bind ?_
      exact fun _ _ _ _ hmiddle _ => .pure hmiddle (.con "Bool")
  | logical =>
      refine (setting.achieves_constrainIn hfree hacyclic h _ (.con "Bool") hleft).bind ?_
      intro _ middle q hpq hmiddle _
      refine (setting.achieves_constrainIn hfree hacyclic hmiddle _ (.con "Bool")
        (hright.mono hpq)).bind ?_
      exact fun _ _ _ _ hlast _ => .pure hlast (.con "Bool")
  | concat hoperand =>
      exact setting.achieves_uniform hfree hacyclic h _ _ hleft hright
        fun _ _ ht => setting.isJoinable_expand hfree hacyclic ht hoperand

/-! ## Expressions -/

theorem infers_operation {operator : Operator} {left right : Expression} {loc : Span}
    {α β τ : Ty} (hleft : setting.Infers Γ left α) (hright : setting.Infers Γ right β)
    (hoperates : (Discipline.strict setting.aliases).Operates operator α β τ) :
    setting.Infers Γ (.operation ⟨operator, left, right, loc⟩) τ := by
  intro session p h
  rw [inferExpression, inferOperation]
  refine (hleft session p h).bind fun leftType s₁ q₁ _ h₁ ht₁ => ?_
  refine (hright s₁ q₁ h₁).bind fun rightType s₂ q₂ h₁₂ h₂ ht₂ => ?_
  exact setting.achieves_operated hfree hacyclic h₂ (ht₁.mono h₁₂) ht₂ hoperates

theorem infers_conditional {condition yes no : Expression} {τ : Ty}
    (hcondition : setting.Infers Γ condition .bool) (hyes : setting.Infers Γ yes τ)
    (hno : setting.Infers Γ no τ) : setting.Infers Γ (.conditional condition yes no) τ := by
  intro session p h
  rw [inferExpression]
  refine (hcondition session p h).bind fun conditionType s₁ q₁ _ h₁ ht₁ => ?_
  refine (setting.achieves_constrainIn hfree hacyclic h₁ _ (.con "Bool") ht₁).bind ?_
  intro _ s₂ q₂ _ h₂ _
  refine (hyes s₂ q₂ h₂).bind fun yesType s₃ q₃ _ h₃ ht₃ => ?_
  refine (hno s₃ q₃ h₃).bind fun noType s₄ q₄ h₃₄ h₄ ht₄ => ?_
  refine (setting.achieves_constrainIn hfree hacyclic h₄ _ (ht₃.mono h₃₄) ht₄).bind ?_
  intro _ s₅ q₅ h₄₅ h₅ _
  exact achieves_resolve h₅ (ht₃.mono (le_trans h₃₄ h₄₅))

theorem infers_cons {head tail : Expression} {τ : Ty} (hhead : setting.Infers Γ head τ)
    (htail : setting.Infers Γ tail (.list τ)) :
    setting.Infers Γ (.cons head tail) (.list τ) := by
  intro session p h
  rw [inferExpression]
  refine (hhead session p h).bind fun headType s₁ q₁ _ h₁ ht₁ => ?_
  refine (htail s₁ q₁ h₁).bind fun tailType s₂ q₂ h₁₂ h₂ ht₂ => ?_
  refine (setting.achieves_constrainIn hfree hacyclic h₂ _ (ht₁.mono h₁₂).list ht₂).bind ?_
  intro _ s₃ q₃ h₂₃ h₃ _
  exact achieves_resolve h₃ (ht₁.mono (le_trans h₁₂ h₂₃)).list

theorem infers_composition {left right : Expression} {α β γ : Ty}
    (hleft : setting.Infers Γ left (.func β γ)) (hright : setting.Infers Γ right (.func α β)) :
    setting.Infers Γ (.composition left right) (.func α γ) := by
  intro session p h
  rw [inferExpression]
  refine (hleft session p h).bind fun leftType s₁ q₁ _ h₁ hl => ?_
  refine (hright s₁ q₁ h₁).bind fun rightType s₂ q₂ h₁₂ h₂ hr => ?_
  refine (achieves_fresh hfree h₂ α).bind fun a s₃ q₃ h₂₃ h₃ ha => ?_
  refine (achieves_fresh hfree h₃ β).bind fun b s₄ q₄ h₃₄ h₄ hb => ?_
  refine (achieves_fresh hfree h₄ γ).bind fun c s₅ q₅ h₄₅ h₅ hc => ?_
  have h₃₅ := le_trans h₃₄ h₄₅
  have h₂₅ := le_trans h₂₃ h₃₅
  refine (setting.achieves_constrainIn hfree hacyclic h₅ _ ((hb.mono h₄₅).func hc)
    (hl.mono (le_trans h₁₂ h₂₅))).bind ?_
  intro _ s₆ q₆ h₅₆ h₆ _
  refine (setting.achieves_constrainIn hfree hacyclic h₆ _
    (((ha.mono h₃₅).func (hb.mono h₄₅)).mono h₅₆) (hr.mono (le_trans h₂₅ h₅₆))).bind ?_
  intro _ s₇ q₇ h₆₇ h₇ _
  exact achieves_resolve h₇ (((ha.mono h₃₅).func hc).mono (le_trans h₅₆ h₆₇))

theorem infers_application {f argument : Expression} {α τ : Ty}
    (hf : setting.Infers Γ f (.func α τ)) (hargument : setting.Infers Γ argument α) :
    setting.Infers Γ (.application f argument) τ := by
  intro session p h
  rw [inferExpression]
  refine (hf session p h).bind fun functionType s₁ q₁ _ h₁ ht₁ => ?_
  refine (hargument s₁ q₁ h₁).bind fun argumentType s₂ q₂ h₁₂ h₂ ht₂ => ?_
  refine (achieves_fresh hfree h₂ τ).bind fun result s₃ q₃ h₂₃ h₃ ht₃ => ?_
  refine (setting.achieves_constrainIn hfree hacyclic h₃ _ (ht₁.mono (le_trans h₁₂ h₂₃))
    ((ht₂.mono h₂₃).func ht₃)).bind ?_
  intro _ s₄ q₄ h₃₄ h₄ _
  exact achieves_resolve h₄ (ht₃.mono h₃₄)

theorem infers_joined {operator : Symbol} {left right : Expression} {τ : Ty}
    (hoperator : operator.value = "++") (hundeclared : setting.Undeclared Γ operator.value)
    (hleft : setting.Infers Γ left τ) (hright : setting.Infers Γ right τ)
    (hoperand : (Discipline.strict setting.aliases).operand .concat τ) :
    setting.Infers Γ (.infixed operator left right) τ := by
  intro session p h
  rw [inferExpression]
  refine .get ?_
  have hdeclares := (setting.declares_eq_false (h.eq_none_iff operator.value)).mpr hundeclared
  rw [if_pos (by simpa [hdeclares] using hoperator)]
  refine (hleft session p h).bind fun leftType s₁ q₁ _ h₁ ht₁ => ?_
  refine (hright s₁ q₁ h₁).bind fun rightType s₂ q₂ h₁₂ h₂ ht₂ => ?_
  exact setting.achieves_uniform hfree hacyclic h₂ _ _ (ht₁.mono h₁₂) ht₂
    fun _ _ ht => setting.isJoinable_expand hfree hacyclic ht hoperand

theorem infers_infixed {operator : Symbol} {left right : Expression} {π α β τ : Ty}
    (hjoined : ¬ (operator.value = "++" ∧ setting.Undeclared Γ operator.value))
    (hnamed : setting.Named Γ operator.value π)
    (hπ : setting.aliases.normal π = setting.aliases.normal (.curried [α, β] τ))
    (hleft : setting.Infers Γ left α) (hright : setting.Infers Γ right β) :
    setting.Infers Γ (.infixed operator left right) τ := by
  intro session p h
  rw [inferExpression]
  refine .get ?_
  rw [← setting.declares_eq_false (h.eq_none_iff operator.value)] at hjoined
  rw [if_neg (by simpa using hjoined)]
  refine (setting.achieves_lookup hfree h hnamed).bind fun operatorType s₁ q₁ _ h₁ ht₁ => ?_
  refine (hleft s₁ q₁ h₁).bind fun leftType s₂ q₂ h₁₂ h₂ ht₂ => ?_
  refine (hright s₂ q₂ h₂).bind fun rightType s₃ q₃ h₂₃ h₃ ht₃ => ?_
  refine (achieves_fresh hfree h₃ τ).bind fun result s₄ q₄ h₃₄ h₄ ht₄ => ?_
  have harrow : setting.aliases.Means q₄ (.curried [leftType, rightType] result)
      (.curried [α, β] τ) :=
    (ht₂.mono (le_trans h₂₃ h₃₄)).func ((ht₃.mono h₃₄).func ht₄)
  refine (setting.achieves_constrainIn hfree hacyclic h₄ _
    ((ht₁.convert hπ).mono (le_trans h₁₂ (le_trans h₂₃ h₃₄))) harrow).bind ?_
  intro _ s₅ q₅ h₄₅ h₅ _
  exact achieves_resolve h₅ (ht₄.mono h₄₅)

theorem achieves_inferElements {elements : List Expression} {τ : Ty}
    (helements : ∀ e ∈ elements, setting.Infers Γ e τ) (h : session.Agrees setting.aliases Γ p)
    {t : Ty} (ht : setting.aliases.Means p t τ) :
    (setting.inferElements t elements).Achieves setting.aliases session p Γ fun _ _ => True := by
  induction elements generalizing session p with
  | nil =>
      rw [inferElements]
      exact .pure h trivial
  | cons e rest ih =>
      obtain ⟨he, hrest⟩ := List.forall_mem_cons.mp helements
      rw [inferElements]
      refine (he session p h).bind fun found s₁ q₁ h₀₁ h₁ hfound => ?_
      refine (setting.achieves_constrainIn hfree hacyclic h₁ _ (ht.mono h₀₁) hfound).bind ?_
      intro _ s₂ q₂ h₁₂ h₂ _
      exact ih hrest h₂ (ht.mono (le_trans h₀₁ h₁₂))

theorem infers_list {elements : List Expression} {loc : Span} {τ : Ty}
    (helements : ∀ e ∈ elements, setting.Infers Γ e τ) :
    setting.Infers Γ (.primitive (.list elements loc)) (.list τ) := by
  intro session p h
  rw [inferExpression, inferPrimitive]
  refine (achieves_fresh hfree h τ).bind fun t s₁ q₁ _ h₁ ht => ?_
  refine (setting.achieves_inferElements hfree hacyclic helements h₁ ht).bind ?_
  intro _ s₂ q₂ h₁₂ h₂ _
  exact achieves_resolve h₂ (ht.mono h₁₂).list

/-- The given fields, from a position on, have instances of the types of their fields. -/
theorem achieves_inferFields {name : String} {info : ConstructorInfo} {ρ : String → Ty}
    (φ : Nat → Ty) {fields : List FieldExpression} {position : Nat}
    {names : Table String TypeVar} (h : session.Agrees setting.aliases Γ p)
    (hknows : p.Knows names ρ)
    (hfield : ∀ i given, fields[i]? = some given →
      ∃ field, info.fieldFor? (position + i) given.name.value = some field ∧
        field.value.Instance ρ (φ (position + i)))
    (hvalue : ∀ i given, fields[i]? = some given →
      setting.Infers Γ given.value (φ (position + i))) :
    (setting.inferFields name info fields position names).Achieves setting.aliases session p Γ
      fun _ _ => True := by
  induction fields generalizing session p position names with
  | nil =>
      rw [inferFields]
      exact .pure h trivial
  | cons given rest ih =>
      obtain ⟨field, hfor, hinstance⟩ := hfield 0 given rfl
      have hgiven := hvalue 0 given rfl
      obtain ⟨fieldName, value⟩ := given
      rw [inferFields]
      simp only [Nat.add_zero] at hfor hinstance
      rw [hfor]
      refine (achieves_lowering hfree h hinstance hknows).bind ?_
      rintro ⟨expected, names'⟩ s₁ q₁ _ h₁ ⟨hexpected, hknows'⟩
      refine (hgiven s₁ q₁ h₁).bind fun found s₂ q₂ h₁₂ h₂ hfound => ?_
      refine (setting.achieves_constrainIn hfree hacyclic h₂ _ (hexpected.mono h₁₂) hfound).bind ?_
      intro _ s₃ q₃ h₂₃ h₃ _
      refine ih h₃ (hknows'.mono (le_trans h₁₂ h₂₃)) ?_ ?_
      · intro i other hi
        rw [Nat.add_assoc, Nat.add_comm 1 i]
        exact hfield (i + 1) other hi
      · intro i other hi
        rw [Nat.add_assoc, Nat.add_comm 1 i]
        exact hvalue (i + 1) other hi

theorem infers_data {name : Symbol} {fields : List FieldExpression} {info : ConstructorInfo}
    {ρ : String → Ty} {φ : Nat → Ty}
    (hinfo : setting.globals.constructors.get? name.value = some info)
    (hlength : info.isPositional = true → info.fields.length = fields.length)
    (hfield : ∀ i given, fields[i]? = some given →
      ∃ field, info.fieldFor? i given.name.value = some field ∧ field.value.Instance ρ (φ i))
    (hvalue : ∀ i given, fields[i]? = some given → setting.Infers Γ given.value (φ i)) :
    setting.Infers Γ (.data name fields) (.con info.record) := by
  intro session p h
  rw [inferExpression, hinfo]
  dsimp only
  rw [if_neg (by simpa using hlength)]
  have hfields : (setting.inferFields name.value info fields 0 {}).Achieves setting.aliases
      session p Γ fun _ _ => True := by
    refine setting.achieves_inferFields hfree hacyclic φ h (p.knows_nothing ρ) ?_ ?_
    · simpa only [Nat.zero_add] using hfield
    · simpa only [Nat.zero_add] using hvalue
  exact hfields.bind fun _ _ _ _ hafter _ => .pure hafter (.con _)

/-! ## Patterns -/

theorem binds_literal {literal : Primitive} {τ : Ty}
    (hliteral : setting.Infers Γ (.primitive literal) τ) :
    setting.Binds Γ (.literal literal) τ Γ := by
  intro session p t h ht
  have hfound := hliteral session p h
  rw [inferExpression] at hfound
  rw [bindPattern]
  refine hfound.bind fun found s₁ q₁ h₀₁ h₁ hfound => ?_
  exact setting.achieves_constrainIn hfree hacyclic h₁ _ (ht.mono h₀₁) hfound

theorem binds_truth {name : String} (hname : name = "True" ∨ name = "False") :
    setting.Binds Γ (.constructor name []) .bool Γ := by
  intro session p t h ht
  rw [bindPattern, if_pos (by simpa using hname)]
  exact achieves_constrain hfree hacyclic h ht (.con "Bool")

theorem binds_constructor {name : String} {patterns : List Pattern} {info : ConstructorInfo}
    {ρ : String → Ty} {τs : List Ty}
    (hname : ¬ ((name = "True" ∨ name = "False") ∧ patterns = []))
    (hinfo : setting.globals.constructors.get? name = some info)
    (hfields : TypeTerm.Instances ρ (info.fields.map Field.value) τs)
    (hpatterns : setting.BindsAll Γ patterns τs Δ) :
    setting.Binds Γ (.constructor name patterns) (.con info.record) Δ := by
  intro session p t h ht
  have hlength : info.fields.length = patterns.length := by
    rw [hpatterns.length_eq, ← hfields.length_eq, List.length_map]
  have hfound : (setting.constructorFor name patterns.length).Achieves setting.aliases session p Γ
      fun _ found => info = found :=
    ⟨info, session, p, setting.gives_constructorFor.mpr ⟨⟨hinfo, hlength⟩, rfl⟩, le_refl p, h, rfl⟩
  rw [bindPattern, if_neg (by simpa using hname)]
  refine hfound.bind ?_
  rintro _ s₁ q₁ h₀₁ h₁ rfl
  refine (setting.achieves_constrainIn hfree hacyclic h₁ _ (ht.mono h₀₁) (.con _)).bind ?_
  intro _ s₂ q₂ _ h₂ _
  exact setting.achieves_bindFields hfree hpatterns h₂ hfields (q₂.knows_nothing ρ)

theorem binds_list {elements : List Pattern} {τ : Ty}
    (helements : setting.BindsAll Γ elements (List.replicate elements.length τ) Δ) :
    setting.Binds Γ (.list elements) (.list τ) Δ := by
  intro session p t h ht
  rw [bindPattern]
  refine (achieves_fresh hfree h τ).bind fun element s₁ q₁ h₀₁ h₁ helement => ?_
  refine (setting.achieves_constrainIn hfree hacyclic h₁ _ (ht.mono h₀₁) helement.list).bind ?_
  intro _ s₂ q₂ h₁₂ h₂ _
  exact setting.achieves_bindEach helements h₂ (helement.mono h₁₂)
    fun τ' hτ' => List.eq_of_mem_replicate hτ'

theorem binds_cons {head tail : Pattern} {τ : Ty} (hhead : setting.Binds Γ head τ Δ)
    (htail : setting.Binds Δ tail (.list τ) Ξ) :
    setting.Binds Γ (.cons head tail) (.list τ) Ξ := by
  intro session p t h ht
  rw [bindPattern]
  refine (achieves_fresh hfree h τ).bind fun element s₁ q₁ h₀₁ h₁ helement => ?_
  refine (setting.achieves_constrainIn hfree hacyclic h₁ _ (ht.mono h₀₁) helement.list).bind ?_
  intro _ s₂ q₂ h₁₂ h₂ _
  refine (hhead s₂ q₂ _ h₂ (helement.mono h₁₂)).bind fun _ s₃ q₃ h₂₃ h₃ _ => ?_
  exact htail s₃ q₃ _ h₃ (helement.mono (le_trans h₁₂ h₂₃)).list

theorem binds_tuple {elements : List Pattern} {τs : List Ty}
    (helements : setting.BindsAll Γ elements τs Δ) :
    setting.Binds Γ (.tuple elements) (.tuple τs) Δ := by
  intro session p t h ht
  rw [bindPattern]
  refine (achieves_freshFor hfree elements h helements.length_eq).bind ?_
  intro ts s₁ q₁ h₀₁ h₁ hts
  refine (setting.achieves_constrainIn hfree hacyclic h₁ _ (ht.mono h₀₁) (.tuple hts)).bind ?_
  intro _ s₂ q₂ h₁₂ h₂ _
  have hbind := setting.achieves_bindAll helements h₂ (Aliases.means_all_mono hts h₁₂) []
  rwa [List.append_nil] at hbind

end

/-! ## Derivations

By induction on the derivation, with the lemma of its last rule in each case. -/

mutual

/-- What has a type by the rules is inferred. -/
theorem infers_of_typed (hfree : setting.aliases.VarFree) (hacyclic : setting.aliases.Acyclic) :
    {Γ : Context} → {e : Expression} → {τ : Ty} →
      Typed (.strict setting.aliases) setting Γ e τ → setting.Infers Γ e τ
  | _, _, _, .convert h heq => setting.infers_convert (infers_of_typed hfree hacyclic h) heq
  | _, _, _, .genericNumber hkind hnumber => by
      intro session p h
      rw [inferExpression, inferPrimitive, if_pos hkind]
      exact achieves_freshNumeric hfree h hnumber
  | _, _, _, .number hkind => by
      intro session p h
      rw [inferExpression, inferPrimitive, if_neg (Bool.eq_false_iff.mp hkind)]
      exact .pure h (.con _)
  | _, _, _, .boolean => by
      intro session p h
      rw [inferExpression, inferPrimitive]
      exact .pure h (.con "Bool")
  | _, _, _, .char => by
      intro session p h
      rw [inferExpression, inferPrimitive]
      exact .pure h (.con "Char")
  | _, _, _, .string => by
      intro session p h
      rw [inferExpression, inferPrimitive]
      exact .pure h (.con "String")
  | _, _, _, .null τ => by
      intro session p h
      rw [inferExpression, inferPrimitive]
      exact achieves_fresh hfree h τ
  | _, _, _, .undefined τ => by
      intro session p h
      rw [inferExpression, inferPrimitive]
      exact achieves_fresh hfree h τ
  | _, _, _, .symbol hnamed => by
      intro session p h
      rw [inferExpression, inferPrimitive]
      exact setting.achieves_lookup hfree h hnamed
  | _, _, _, .list helements =>
      setting.infers_list hfree hacyclic fun e he => infers_of_typed hfree hacyclic (helements e he)
  | _, _, _, .operation hleft hright hoperates =>
      setting.infers_operation hfree hacyclic (infers_of_typed hfree hacyclic hleft)
        (infers_of_typed hfree hacyclic hright) hoperates
  | _, _, _, .tuple helements =>
      setting.infers_tuple (infersAll_of_typedAll hfree hacyclic helements)
  | _, _, _, .conditional hcondition hyes hno =>
      setting.infers_conditional hfree hacyclic (infers_of_typed hfree hacyclic hcondition)
        (infers_of_typed hfree hacyclic hyes) (infers_of_typed hfree hacyclic hno)
  | _, _, _, .cons hhead htail =>
      setting.infers_cons hfree hacyclic (infers_of_typed hfree hacyclic hhead)
        (infers_of_typed hfree hacyclic htail)
  | _, _, _, .data hinfo hlength hfield hvalue =>
      setting.infers_data hfree hacyclic hinfo hlength hfield fun i given hi =>
        infers_of_typed hfree hacyclic (hvalue i given hi)
  | _, _, _, .composition hleft hright =>
      setting.infers_composition hfree hacyclic (infers_of_typed hfree hacyclic hleft)
        (infers_of_typed hfree hacyclic hright)
  | _, _, _, .lambda hparameters hbody =>
      setting.infers_lambda hfree (bindsAll_of_matchesAll hfree hacyclic hparameters)
        (infers_of_typed hfree hacyclic hbody)
  | _, _, _, .application hf hargument =>
      setting.infers_application hfree hacyclic (infers_of_typed hfree hacyclic hf)
        (infers_of_typed hfree hacyclic hargument)
  | _, _, _, .joined hoperator hundeclared hleft hright hoperand =>
      setting.infers_joined hfree hacyclic hoperator hundeclared
        (infers_of_typed hfree hacyclic hleft) (infers_of_typed hfree hacyclic hright) hoperand
  | _, _, _, .infixed hjoined hnamed hπ hleft hright =>
      setting.infers_infixed hfree hacyclic hjoined hnamed hπ
        (infers_of_typed hfree hacyclic hleft) (infers_of_typed hfree hacyclic hright)

theorem infersAll_of_typedAll (hfree : setting.aliases.VarFree)
    (hacyclic : setting.aliases.Acyclic) :
    {Γ : Context} → {es : List Expression} → {τs : List Ty} →
      TypedAll (.strict setting.aliases) setting Γ es τs →
        List.Forall₂ (setting.Infers Γ) es τs
  | _, _, _, .nil => .nil
  | _, _, _, .cons he hrest =>
      .cons (infers_of_typed hfree hacyclic he) (infersAll_of_typedAll hfree hacyclic hrest)

/-- What a pattern takes apart by the rules can be matched against it. -/
theorem binds_of_matches (hfree : setting.aliases.VarFree) (hacyclic : setting.aliases.Acyclic) :
    {Γ Δ : Context} → {pattern : Pattern} → {τ : Ty} →
      Matches (.strict setting.aliases) setting Γ pattern τ Δ → setting.Binds Γ pattern τ Δ
  | _, _, _, _, .convert h heq => setting.binds_convert (binds_of_matches hfree hacyclic h) heq
  | _, _, _, _, .wildcard => by
      intro session p t h _
      rw [bindPattern]
      exact .pure h trivial
  | _, _, _, _, .literal hliteral =>
      setting.binds_literal hfree hacyclic (infers_of_typed hfree hacyclic hliteral)
  | _, _, _, _, .var => by
      intro session p t h ht
      rw [bindPattern]
      exact achieves_bindName h _ ht
  | _, _, _, _, .truth hname => setting.binds_truth hfree hacyclic hname
  | _, _, _, _, .constructor hname hinfo hfields hpatterns =>
      setting.binds_constructor hfree hacyclic hname hinfo hfields
        (bindsAll_of_matchesAll hfree hacyclic hpatterns)
  | _, _, _, _, .list helements =>
      setting.binds_list hfree hacyclic (bindsAll_of_matchesAll hfree hacyclic helements)
  | _, _, _, _, .cons hhead htail =>
      setting.binds_cons hfree hacyclic (binds_of_matches hfree hacyclic hhead)
        (binds_of_matches hfree hacyclic htail)
  | _, _, _, _, .as hwhole hpattern => by
      intro session p t h ht
      rw [bindPattern]
      refine (binds_of_matches hfree hacyclic hwhole session p t h ht).bind ?_
      intro _ s₁ q₁ h₀₁ h₁ _
      exact binds_of_matches hfree hacyclic hpattern s₁ q₁ t h₁ (ht.mono h₀₁)
  | _, _, _, _, .tuple helements =>
      setting.binds_tuple hfree hacyclic (bindsAll_of_matchesAll hfree hacyclic helements)

theorem bindsAll_of_matchesAll (hfree : setting.aliases.VarFree)
    (hacyclic : setting.aliases.Acyclic) :
    {Γ Δ : Context} → {patterns : List Pattern} → {τs : List Ty} →
      MatchesAll (.strict setting.aliases) setting Γ patterns τs Δ →
        setting.BindsAll Γ patterns τs Δ
  | _, _, _, _, .nil => .nil
  | _, _, _, _, .cons hpattern hrest =>
      .cons (binds_of_matches hfree hacyclic hpattern)
        (bindsAll_of_matchesAll hfree hacyclic hrest)

end

/-! ## Clauses -/

theorem achieves_checkExpression (hfree : setting.aliases.VarFree)
    (hacyclic : setting.aliases.Acyclic) (context : String) {e : Expression} {expected τ : Ty}
    (he : Typed (.strict setting.aliases) setting Γ e τ)
    (h : session.Agrees setting.aliases Γ p) (ht : setting.aliases.Means p expected τ) :
    (setting.checkExpression context expected e).Achieves setting.aliases session p Γ
      fun _ _ => True := by
  refine (setting.infers_of_typed hfree hacyclic he session p h).bind ?_
  intro found s₁ q₁ h₀₁ h₁ hfound
  exact setting.achieves_constrainIn hfree hacyclic h₁ context (ht.mono h₀₁) hfound

theorem achieves_requireGuards (hfree : setting.aliases.VarFree)
    (hacyclic : setting.aliases.Acyclic) {guards : List Guard} {expected τ : Ty}
    (hguards : BodyTyped (.strict setting.aliases) setting Γ τ (.guarded guards))
    (h : session.Agrees setting.aliases Γ p) (ht : setting.aliases.Means p expected τ) :
    (setting.requireGuards expected guards).Achieves setting.aliases session p Γ
      fun _ _ => True := by
  induction guards generalizing session p with
  | nil => exact .pure h trivial
  | cons guard rest ih =>
      obtain ⟨⟨hcondition, hresult⟩, hrest⟩ := List.forall_mem_cons.mp hguards
      refine (setting.achieves_checkExpression hfree hacyclic _ hcondition h (.con "Bool")).bind ?_
      intro _ s₁ q₁ h₀₁ h₁ _
      refine (setting.achieves_checkExpression hfree hacyclic _ hresult h₁ (ht.mono h₀₁)).bind ?_
      intro _ s₂ q₂ h₁₂ h₂ _
      exact ih hrest h₂ (ht.mono (le_trans h₀₁ h₁₂))

theorem achieves_requireResult (hfree : setting.aliases.VarFree)
    (hacyclic : setting.aliases.Acyclic) {body : ClauseBody} {expected τ : Ty}
    (hbody : BodyTyped (.strict setting.aliases) setting Γ τ body)
    (h : session.Agrees setting.aliases Γ p) (ht : setting.aliases.Means p expected τ) :
    (setting.requireResult expected body).Achieves setting.aliases session p Γ
      fun _ _ => True := by
  cases body with
  | unguarded e => exact setting.achieves_checkExpression hfree hacyclic _ hbody h ht
  | guarded guards => exact setting.achieves_requireGuards hfree hacyclic hbody h ht

/-- A clause that has some instance of its signature is checked without an error, however
far the session had come before. -/
theorem checkClause_of_clauseTyped (hfree : setting.aliases.VarFree)
    (hacyclic : setting.aliases.Acyclic) (signature : Signature) (clause : Clause)
    (session : Session) (h : ClauseTyped (.strict setting.aliases) setting signature clause) :
    ((setting.checkClause signature clause).run session.reset).1 = [] := by
  obtain ⟨ρ, τs, τ, Γ, hτs, hτ, hfew, hparameters, hbody⟩ := h
  -- Older variables do not occur in what is checked, so their values do not matter.
  let p : Stage := ⟨session.reset.next, .var⟩
  rcases hlower : signature.lower.run ⟨{}, p.next⟩ with ⟨⟨inputs, output⟩, naming⟩
  obtain ⟨q, hnext, _, hmeans, hmeans'⟩ := setting.exists_means_lower hlower hτs hτ
  have hlength := hmeans.length_eq
  refine (setting.checkClause_eq_nil hlower).mpr ⟨by omega, ?_⟩
  have hbind := setting.achieves_bindAll
    (setting.bindsAll_of_matchesAll hfree hacyclic hparameters)
    (Session.agrees_start setting.aliases session q)
    (List.forall₂_take clause.parameters.length hmeans) (inputs.drop clause.parameters.length)
  rw [List.take_append_drop] at hbind
  have hclause : (setting.requireClause clause inputs output).Achieves setting.aliases
      { session.reset with scopes := .empty, next := q.next } q Γ fun _ _ => True := by
    refine hbind.bind fun _ s₁ q₁ h₀₁ h₁ _ => ?_
    refine setting.achieves_requireResult hfree hacyclic hbody h₁ ?_
    exact .curried (Aliases.means_all_mono (List.forall₂_drop _ hmeans) h₀₁) (hmeans'.mono h₀₁)
  obtain ⟨_, after, _, hgives, _⟩ := hclause
  rw [hnext] at hgives
  exact ⟨after, hgives⟩

/-- The clause of `rotate` has its declared type, and nothing in it is reported. -/
theorem checkClause_rotation :
    ClauseTyped (.strict Rotation.setting.aliases) Rotation.setting Rotation.signature
        Rotation.clause ∧
      ((Rotation.setting.checkClause Rotation.signature Rotation.clause).run
        (Session.reset { next := 7 })).1 = [] :=
  ⟨Rotation.clauseTyped, checkClause_of_clauseTyped _ Rotation.varFree Rotation.acyclic _ _ _
    Rotation.clauseTyped⟩

end Setting

end Rubric
