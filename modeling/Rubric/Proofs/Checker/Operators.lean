import Rubric.Proofs.Checker.Application
import Rubric.Proofs.Checker.Reachable

/-!
# Operators with a form of their own

Joining, comparing, combining truth values, prefixing a list and composing functions each have
an expression form of their own, and each is also a built-in name that can stand between two
operands. The form submits an equation or two. The name is given a polymorphic type before its
operands are looked at, and a single equation with a new variable for the result follows.
Unless the name is declared, it makes no difference which one is written.

The variables of the polymorphic type are spare ones of the second run. The form takes none,
and they are bound to operand types as they come, or it takes as many and in the same order.
-/

namespace Rubric

/-- Expressions with a form of their own, and the name that can be written between their
operands instead. -/
inductive Expression.Dedicated : String → Expression → Expression → Expression → Prop where
  | cons (left right : Expression) : Dedicated ":" left right (.cons left right)
  | composition (left right : Expression) : Dedicated "." left right (.composition left right)
  | comparison (operator : ComparisonOperator) (left right : Expression) (loc : Span) :
      Dedicated operator.text left right (.operation ⟨.comparison operator, left, right, loc⟩)
  | logical (operator : LogicalOperator) (left right : Expression) (loc : Span) :
      Dedicated operator.text left right (.operation ⟨.logical operator, left, right, loc⟩)
  | concat (left right : Expression) (loc : Span) :
      Dedicated "++" left right (.operation ⟨.concat, left, right, loc⟩)

namespace Setting

open Check Session

variable (setting : Setting)

/-- The operands have been inferred in both runs. The second one has taken the variables of
the operator before, and they are spare. -/
structure Operands (start : Session) (arity : Nat) (ν : Numbering) (s s' : Session)
    (left right : Ty) : Prop where
  next : start.next ≤ s.next
  keeps : (Numbering.same start.next).Keeps start.next ν
  paired : Paired setting.aliases ν s s'
  left : left.Below s.next
  right : right.Below s.next
  spare : ∀ n, n < arity → ν.spare (start.next + n)
  taken : start.next + arity ≤ s'.next

variable {start : Session}

/-- What a form does with the types of its operands agrees with the equations for the operands
of a built-in name, so the form agrees with the name. -/
theorem agree_infixed (hfree : setting.aliases.VarFree) (htidy : start.Tidy setting.aliases)
    {operator : Symbol} {scheme : Scheme}
    (hundeclared : setting.Undeclared start.scopes.lookup operator.value)
    (hbuiltin : Prelude.builtin? operator.value = some scheme) (hjoin : operator.value ≠ "++")
    {x y z : Ty} (htype : scheme.instanceAt start.next = .curried [x, y] z)
    (hz : z.isVar = false) {rest : Ty → Ty → Check Ty} (left right : Expression)
    (hrest : ∀ ν s s' l r, setting.Operands start scheme.arity ν s s' l r →
      Agree (fun t after _ middle => ∃ ν', start.EndAlike setting.aliases t after z middle ν')
        (rest l r) s
        (constrainAll setting.aliases setting.literals
          [(x, l.rename ν.var), (y, r.rename ν.var)]) s') :
    Agree (fun t after t' after' => ∃ ν, start.EndAlike setting.aliases t after t' after' ν)
      (do
        let leftType ← setting.inferExpression left
        let rightType ← setting.inferExpression right
        rest leftType rightType) start
      (setting.inferExpression (.infixed operator left right)) start := by
  have hbelow : (Ty.curried [x, y] z).Below (start.next + scheme.arity) := by
    rw [← htype]
    exact Scheme.below_instanceAt (Prelude.all_of_builtin? hbuiltin)
  obtain ⟨(hx : x.Below _), hyz⟩ := Ty.all_func.mp hbelow
  obtain ⟨(hy : y.Below _), (hz' : z.Below _)⟩ := Ty.all_func.mp hyz
  have hstart := (paired_same htidy).skip scheme.arity
  have hkeeps := Numbering.keeps_skip (paired_same htidy).counts scheme.arity
  -- The second run looks the operator up first.
  rw [inferExpression]
  refine .right (gives_get.mpr ⟨rfl, rfl⟩) ?_
  rw [if_neg (by simp [hjoin])]
  refine .right (setting.lookup_of_found (.builtin hundeclared hbuiltin)) ?_
  rw [htype]
  refine (hstart.infer hfree left).bind ?_
  rintro l s _ s' ⟨rfl, hl, hpaired, hreaches, hreaches'⟩
  refine (hpaired.infer hfree right).bind ?_
  rintro r s₂ _ s₂' ⟨rfl, hr, hpaired₂, hreaches₂, hreaches₂'⟩
  have hle : start.next + scheme.arity ≤ s₂'.next :=
    Nat.le_trans hreaches'.next_le hreaches₂'.next_le
  have hl' := hl.of_le hreaches₂.next_le
  have hoperands : setting.Operands start scheme.arity _ s₂ s₂' l r :=
    ⟨Nat.le_trans hreaches.next_le hreaches₂.next_le, hkeeps, hpaired₂, hl', hr,
      fun n hn => .inr ⟨Nat.le_add_right _ _, Nat.add_lt_add_left hn _⟩, hle⟩
  refine (setting.agree_applied hfree hpaired₂.tidy' _ rfl ?_ (hz'.of_le hle) hz
    (hrest _ s₂ s₂' l r hoperands)).mono ?_
  · refine List.forall_mem_cons.mpr ⟨⟨hx.of_le hle, hpaired₂.below hl'⟩, ?_⟩
    exact List.forall_mem_singleton.mpr ⟨hy.of_le hle, hpaired₂.below hr⟩
  · rintro t after _ _ ⟨middle, ⟨ν, hends⟩, hnext, rfl, rfl⟩
    exact hends.define (hz'.of_le (hnext ▸ hle))

/-! ## The forms -/

namespace Operands

variable {setting} {ν : Numbering} {s s' : Session} {l r : Ty}

/-- The variable of the operator takes the type of the left operand. What is then required of
the right operand, and what is answered, may be written with either of them. -/
theorem agree_matching (hfree : setting.aliases.VarFree)
    (h : setting.Operands start 1 ν s s' l r) (context : String) (expected result : Ty) :
    Agree (fun t after _ middle => ∃ ν', start.EndAlike setting.aliases t after
        (result.subst fun _ => .var ⟨start.next, none⟩) middle ν')
      (do
        setting.constrainIn context (expected.subst fun _ => l) r
        resolve (result.subst fun _ => l)) s
      (constrainAll setting.aliases setting.literals [(.var ⟨start.next, none⟩, l.rename ν.var),
        (expected.subst fun _ => .var ⟨start.next, none⟩, r.rename ν.var)]) s' := by
  have hlt : start.next < s'.next := Nat.lt_of_lt_of_le (Nat.lt_succ_self _) h.taken
  obtain ⟨first, hgives, hpaired, happly⟩ := h.paired.assign hfree setting.literals
    (v := ⟨start.next, none⟩) hlt (h.spare 0 (Nat.zero_lt_one)) h.left
  have hbelow : ∀ t : Ty, (t.subst fun _ => l).Below s.next :=
    fun _ => Ty.all_subst_iff.mpr fun _ _ => h.left
  have hfill : ∀ (t : Ty) (session : Session),
      session.subst.apply (.var ⟨start.next, none⟩) = session.subst.apply (l.rename ν.var) →
      session.subst.apply (t.subst fun _ => .var ⟨start.next, none⟩) =
        session.subst.apply ((t.subst fun _ => l).rename ν.var) := by
    intro t session hvar
    unfold Substitution.apply Ty.rename at hvar ⊢
    rw [Ty.subst_subst, Ty.subst_subst, Ty.subst_subst, hvar, Ty.subst_subst]
  refine .right hgives ((hpaired.constrainIn hfree context (hbelow expected) h.right
    (hfill expected first happly) rfl).bind ?_)
  rintro _ after _ middle ⟨hpaired', hreaches, hreaches'⟩
  have hle := Nat.le_trans h.next hreaches.next_le
  have happly' := hreaches'.apply_congr hfree hpaired.tidy'.solved happly
  exact .of_gives (gives_resolve.mpr ⟨rfl, rfl⟩) (gives_pure.mpr ⟨rfl, rfl⟩)
    ⟨_, hpaired'.endAlike hle h.keeps ((hbelow result).of_le hreaches.next_le)
      (hfill result middle happly')⟩

/-- Both operands have to be of known types, which have no variables. -/
theorem agree_known (hfree : setting.aliases.VarFree) {arity : Nat}
    (h : setting.Operands start arity ν s s' l r) (context context' kind : String) :
    Agree (fun t after _ middle => ∃ ν', start.EndAlike setting.aliases t after (.con kind)
        middle ν')
      (do
        setting.constrainIn context (.con kind) l
        setting.constrainIn context' (.con kind) r
        resolve (.con kind)) s
      (constrainAll setting.aliases setting.literals
        [(.con kind, l.rename ν.var), (.con kind, r.rename ν.var)]) s' := by
  refine (h.paired.constrainIn hfree context Ty.all_con h.left rfl rfl).bind ?_
  rintro _ s₁ _ s₁' ⟨hpaired, hreaches, _⟩
  have hr := h.right.of_le hreaches.next_le
  refine (hpaired.constrainIn hfree context' Ty.all_con hr rfl rfl).bind ?_
  rintro _ after _ middle ⟨hpaired', hreaches', _⟩
  have hle := Nat.le_trans h.next (Nat.le_trans hreaches.next_le hreaches'.next_le)
  exact .of_gives (gives_resolve.mpr ⟨rfl, rfl⟩) (gives_pure.mpr ⟨rfl, rfl⟩)
    ⟨_, hpaired'.endAlike hle h.keeps Ty.all_con rfl⟩

/-- The form takes three variables, for which the variables of the operator are kept. -/
theorem agree_composed (hfree : setting.aliases.VarFree)
    (h : setting.Operands start 3 ν s s' l r) (context context' : String) :
    let a : Ty := .var ⟨start.next, none⟩
    let b : Ty := .var ⟨start.next + 1, none⟩
    let c : Ty := .var ⟨start.next + 2, none⟩
    Agree (fun t after _ middle => ∃ ν', start.EndAlike setting.aliases t after (.func a c)
        middle ν')
      (do
        let a ← fresh
        let b ← fresh
        let c ← fresh
        setting.constrainIn context (.func b c) l
        setting.constrainIn context' (.func a b) r
        resolve (.func a c)) s
      (constrainAll setting.aliases setting.literals
        [(.func b c, l.rename ν.var), (.func a b, r.rename ν.var)]) s' := by
  intro a b c
  obtain ⟨ν', hpaired, hkeeps, hnumber, _⟩ := h.paired.take start.next 3 h.spare
  have hvar : ∀ n, n < 3 → Ty.rename ν'.var (.var ⟨s.next + n, none⟩) =
      .var ⟨start.next + n, none⟩ :=
    fun n hn => congrArg (fun number => Ty.var ⟨number, none⟩) (hnumber n hn)
  have hleft : (Ty.func (.var ⟨s.next + 1, none⟩) (.var ⟨s.next + 2, none⟩)).rename ν'.var =
      .func b c := congrArg₂ Ty.func (hvar 1 (by decide)) (hvar 2 (by decide))
  have hright : (Ty.func (.var ⟨s.next, none⟩) (.var ⟨s.next + 1, none⟩)).rename ν'.var =
      .func a b := congrArg₂ Ty.func (hvar 0 (by decide)) (hvar 1 (by decide))
  have hresult : (Ty.func (.var ⟨s.next, none⟩) (.var ⟨s.next + 2, none⟩)).rename ν'.var =
      .func a c := congrArg₂ Ty.func (hvar 0 (by decide)) (hvar 2 (by decide))
  have hbelow : ∀ n k, n < 3 → k < 3 →
      Ty.Below (s.next + 3) (.func (.var ⟨s.next + n, none⟩) (.var ⟨s.next + k, none⟩)) := by
    intro n k hn hk
    exact Ty.all_func.mpr ⟨Ty.all_var.mpr (Nat.add_lt_add_left hn _),
      Ty.all_var.mpr (Nat.add_lt_add_left hk _)⟩
  refine .left (gives_fresh.mpr ⟨rfl, rfl⟩) (.left (gives_fresh.mpr ⟨rfl, rfl⟩)
    (.left (gives_fresh.mpr ⟨rfl, rfl⟩) ?_))
  rw [← hkeeps.rename h.left, ← hkeeps.rename h.right]
  refine (hpaired.constrainIn hfree context (hbelow 1 2 (by decide) (by decide))
    (h.left.of_le (Nat.le_add_right _ _)) (congrArg _ hleft.symm) rfl).bind ?_
  rintro _ s₁ _ s₁' ⟨hpaired₁, hreaches₁, _⟩
  have hle₁ : s.next + 3 ≤ s₁.next := hreaches₁.next_le
  refine (hpaired₁.constrainIn hfree context' ((hbelow 0 1 (by decide) (by decide)).of_le hle₁)
    (h.right.of_le (Nat.le_trans (Nat.le_add_right _ _) hle₁)) (congrArg _ hright.symm) rfl).bind ?_
  rintro _ after _ middle ⟨hpaired₂, hreaches₂, _⟩
  have hle₂ : s.next + 3 ≤ after.next := Nat.le_trans hle₁ hreaches₂.next_le
  exact .of_gives (gives_resolve.mpr ⟨rfl, rfl⟩) (gives_pure.mpr ⟨rfl, rfl⟩)
    ⟨ν', hpaired₂.endAlike (Nat.le_trans h.next (Nat.le_trans (Nat.le_add_right _ _) hle₂))
      (h.keeps.trans hkeeps h.next) ((hbelow 0 2 (by decide) (by decide)).of_le hle₂)
      (congrArg _ hresult.symm)⟩

end Operands

/-- Joining with the name that is built in is what the form does. -/
theorem agree_joined (hfree : setting.aliases.VarFree) (htidy : start.Tidy setting.aliases)
    {operator : Symbol} (hname : operator.value = "++")
    (hundeclared : setting.declares start.scopes operator.value = false)
    (left right : Expression) (loc : Span) :
    Agree (fun t after t' after' => ∃ ν, start.EndAlike setting.aliases t after t' after' ν)
      (setting.inferExpression (.operation ⟨.concat, left, right, loc⟩)) start
      (setting.inferExpression (.infixed operator left right)) start := by
  have hsame : ∀ t after, (setting.inferExpression (.infixed operator left right)).Gives
      start t after ↔ (setting.inferExpression (.operation ⟨.concat, left, right, loc⟩)).Gives
        start t after := by
    intro t after
    rw [inferExpression, inferExpression, inferOperation, gives_get_bind, hundeclared, hname,
      if_pos (by decide)]
    rfl
  refine ⟨fun t after hgives => ⟨t, after, (hsame t after).mpr hgives, ?_⟩,
    fun t after hgives => ⟨t, after, (hsame t after).mp hgives⟩⟩
  obtain ⟨hreaches, ht, _⟩ := setting.ensures_inferExpression hfree _ _ start t after
    (Nat.le_refl _) htidy hgives
  refine ⟨.same after.next, hreaches.next_le, fun _ _ => rfl,
    paired_same (hreaches.tidy hfree htidy), ht, ?_⟩
  exact (Ty.rename_eq_self fun _ _ => rfl).symm

theorem agree_dedicated (hfree : setting.aliases.VarFree) (htidy : start.Tidy setting.aliases)
    {operator : Symbol} {left right form : Expression}
    (hform : Expression.Dedicated operator.value left right form)
    (hundeclared : setting.declares start.scopes operator.value = false) :
    Agree (fun t after t' after' => ∃ ν, start.EndAlike setting.aliases t after t' after' ν)
      (setting.inferExpression form) start
      (setting.inferExpression (.infixed operator left right)) start := by
  have hunknown : setting.Undeclared start.scopes.lookup operator.value :=
    (setting.declares_eq_false Iff.rfl).mp hundeclared
  generalize hname : operator.value = name at hform
  cases hform with
  | cons left right =>
      rw [inferExpression]
      refine setting.agree_infixed hfree htidy hunknown (by rw [hname]; rfl) (by rw [hname]; decide)
        rfl rfl left right ?_
      intro ν s s' l r h
      exact h.agree_matching hfree "tail of `:`" (.list Scheme.a) (.list Scheme.a)
  | composition left right =>
      rw [inferExpression]
      refine setting.agree_infixed hfree htidy hunknown (by rw [hname]; rfl) (by rw [hname]; decide)
        rfl rfl left right ?_
      intro ν s s' l r h
      exact h.agree_composed hfree _ _
  | comparison operator left right loc =>
      rw [inferExpression, inferOperation]
      refine setting.agree_infixed hfree htidy hunknown (by rw [hname]; cases operator <;> rfl)
        (by rw [hname]; cases operator <;> decide) rfl rfl left right ?_
      intro ν s s' l r h
      exact h.agree_matching hfree _ Scheme.a .bool
  | logical operator left right loc =>
      rw [inferExpression, inferOperation]
      refine setting.agree_infixed hfree htidy hunknown (by rw [hname]; cases operator <;> rfl)
        (by rw [hname]; cases operator <;> decide) rfl rfl left right ?_
      intro ν s s' l r h
      exact h.agree_known hfree _ _ "Bool"
  | concat left right loc => exact setting.agree_joined hfree htidy hname hundeclared left right loc

end Setting

namespace Program

/-- At every point of a check run, with any names in scope, a form that an operator has of its
own and the operator between two operands are interchangeable, unless the program declares the
operator. -/
theorem dedicated_interchangeable (program : Program) {orders : Orders} {setting : Setting}
    {first : Nat} {session : Session}
    (hsetting : Setting.ofGlobals (.collect program) orders = (setting, first))
    (hfree : setting.aliases.VarFree) (hreachable : setting.Reachable first session)
    {operator : Symbol} {left right form : Expression}
    (hform : Expression.Dedicated operator.value left right form)
    (hundeclared : setting.declares session.scopes operator.value = false) :
    Check.Interchangeable session (setting.inferExpression form)
      (setting.inferExpression (.infixed operator left right)) := by
  have htidy := program.tidy_of_reachable hsetting hfree hreachable
  exact Check.interchangeable_of_agree
    (setting.agree_dedicated hfree htidy hform hundeclared)

/-- Composing the identity with itself, after a literal has become an amount. The two runs end
with different variables. -/
theorem dedicated_interchangeable_identities :
    let identity : Expression := .lambda [.var ⟨"x", none, {}⟩] (.ofName "x")
    let form := Moving.setting.inferExpression (.composition identity identity)
    let spelled := Moving.setting.inferExpression (.infixed ⟨".", none, {}⟩ identity identity)
    Moving.setting.Reachable 0 Moving.session ∧
      Moving.setting.declares Moving.session.scopes "." = false ∧
      (Check.runOn form Moving.session).1 =
        .ok (.func (.var ⟨2, none⟩) (.var ⟨2, none⟩)) ∧
      (Check.runOn spelled Moving.session).1 =
        .ok (.func (.var ⟨5, none⟩) (.var ⟨5, none⟩)) ∧
      Check.Interchangeable Moving.session form spelled := by
  intro identity form spelled
  have hundeclared : Moving.setting.declares Moving.session.scopes "." = false := rfl
  refine ⟨Moving.reachable_session, hundeclared, rfl, rfl, ?_⟩
  exact dedicated_interchangeable Moving.program Moving.ofGlobals_program Moving.varFree
    Moving.reachable_session (.composition identity identity) hundeclared

end Program

end Rubric
