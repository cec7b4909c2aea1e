import Rubric.Proofs.Checker.Watch
import Rubric.Proofs.Tree.Typed

/-!
# How steps of the checker are built

Every step of the checker is put together from a few primitive steps, and its watch along with
it. A type that it gives to a primitive step has its variables from the types in hand then: those
that it was given and the answers so far. A step that succeeds has called the checker on all
expressions, literals and patterns of its part of the tree, each once and in the order of a walk.

This is shown here once for all forms of expressions and patterns. What holds at the points of a
run then follows by an induction over the way in which the steps are built.
-/

namespace Rubric

namespace Ty

/-- Every variable of a type stands in one of the given types. -/
def MadeFrom (known : List Ty) (t : Ty) : Prop :=
  t.All fun v => ∃ u ∈ known, u.occurs v = true

variable {known : List Ty} {t : Ty}

theorem madeFrom_of_mem (h : t ∈ known) : t.MadeFrom known :=
  fun _ hv => ⟨t, h, hv⟩

/-- The answer of a step is in hand after it. -/
theorem madeFrom_answer (t : Ty) (known : List Ty) : t.MadeFrom (Holds.types t ++ known) :=
  madeFrom_of_mem List.mem_cons_self

theorem MadeFrom.more (h : t.MadeFrom known) (types : List Ty) : t.MadeFrom (types ++ known) := by
  refine h.mono fun v hv => ?_
  obtain ⟨u, hu, hv⟩ := hv
  exact ⟨u, List.mem_append_right _ hu, hv⟩

end Ty

namespace Holds

variable {α β : Type} [Holds α] [Holds β] {known : List Ty}

/-- All types of an answer are made from the given types. -/
def MadeFrom (known : List Ty) (a : α) : Prop :=
  ∀ t ∈ types a, t.MadeFrom known

theorem MadeFrom.more {a : α} (h : MadeFrom known a) (others : List Ty) :
    MadeFrom (others ++ known) a :=
  fun t ht => (h t ht).more others

theorem madeFrom_answer (a : α) (known : List Ty) : MadeFrom (types a ++ known) a :=
  fun _ ht => Ty.madeFrom_of_mem (List.mem_append_left _ ht)

theorem madeFrom_pair {answer : α × β} :
    MadeFrom known answer ↔ MadeFrom known answer.1 ∧ MadeFrom known answer.2 :=
  List.forall_mem_append

theorem madeFrom_type {t : Ty} : MadeFrom known t ↔ t.MadeFrom known :=
  List.forall_mem_singleton

end Holds

namespace Check

open Watch

/-- A step may succeed with an answer. -/
def MayGive {α : Type} (step : Check α) (a : α) : Prop :=
  ∃ before after, step.Gives before a after

/-- The step that a call on a node is about. -/
inductive Calls (setting : Setting) : {α : Type} → Call → Check α → Prop where
  | expression (e : Expression) : Calls setting (.expression e) (setting.inferExpression e)
  | primitive (p : Primitive) : Calls setting (.primitive p) (setting.inferPrimitive p)
  | pattern (p : Pattern) (expected : Ty) :
      Calls setting (.pattern p expected) (setting.bindPattern p expected)

/-- With some types in hand, a step is built from primitive steps along with its watch. If it
succeeds, it has called the checker on the given nodes. -/
inductive Follows (setting : Setting) :
    {α : Type} → [Holds α] → List Ty → Check α → Watch → List Node → Prop where
  | pure {α : Type} [Holds α] {known : List Ty} {a : α}
      (ha : Holds.MadeFrom known a) :
      Follows setting known (Pure.pure a) silent []
  | throw {α : Type} [Holds α] {known : List Ty} {error : TypeError} {nodes : List Node}
      (herror : ∀ t ∈ error.types, t.MadeFrom known) :
      Follows setting known (MonadExcept.throw error : Check α) silent nodes
  | freshVar {known : List Ty} : Follows setting known freshVar silent []
  | freshNumeric {known : List Ty} :
      Follows setting known freshNumeric (freshVar.watched silent fun _ => silent) []
  | unnamed {known : List Ty} {names : Table String TypeVar}
      (hnames : Holds.MadeFrom known names) :
      Follows setting known (lowering names Naming.fresh) silent []
  | named {known : List Ty} {names : Table String TypeVar} {name : String}
      (hnames : Holds.MadeFrom known names) :
      Follows setting known (lowering names (Naming.named name)) silent []
  | resolve {known : List Ty} {t : Ty} (ht : t.MadeFrom known) :
      Follows setting known (resolve t) silent []
  | bindName {known : List Ty} {name : String} {t : Ty} (ht : t.MadeFrom known) :
      Follows setting known (bindName name t) silent []
  | constrain {known : List Ty} {expected found : Ty} (hexpected : expected.MadeFrom known)
      (hfound : found.MadeFrom known) :
      Follows setting known (setting.constrain expected found)
        (setting.equationWatch expected found) []
  | bind {α β : Type} [Holds α] [Holds β] {known : List Ty} {step : Check α}
      {next : α → Check β} {watch : Watch} {nextWatch : α → Watch} {nodes nodes' : List Node}
      (hstep : Follows setting known step watch nodes)
      (hnext : ∀ a, step.MayGive a →
        Follows setting (Holds.types a ++ known) (next a) (nextWatch a) nodes') :
      Follows setting known (step >>= next) (step.watched watch nextWatch) (nodes ++ nodes')
  | last {α β : Type} [Holds α] [Holds β] {known : List Ty} {step : Check α}
      {next : α → Check β} {watch : Watch} {nodes : List Node}
      (hstep : Follows setting known step watch nodes)
      (hnext : ∀ a, step.MayGive a →
        Follows setting (Holds.types a ++ known) (next a) silent []) :
      Follows setting known (step >>= next) watch nodes
  | look {α : Type} [Holds α] {known : List Ty} (name : String) {next : Session → Check α}
      (watches : Session → Watch) {nodes : List Node}
      (hnext : ∀ session : Session, Follows setting
        ((session.scopes.lookup name).toList ++ known) (next session) (watches session) nodes) :
      Follows setting known (MonadState.get >>= next) (fun p => watches p.session p) nodes
  | inContext {α : Type} [Holds α] {known : List Ty} {step : Check α} {watch : Watch}
      {nodes : List Node} (hstep : Follows setting known step watch nodes) (context : String) :
      Follows setting known (Check.inContext context step) watch nodes
  | inNewScope {α : Type} [Holds α] {known : List Ty} {step : Check α} {watch : Watch}
      {nodes : List Node} (hstep : Follows setting known step watch nodes) :
      Follows setting known (Check.inNewScope step) (Watch.inNewScope watch) nodes
  | within {α : Type} [Holds α] {known : List Ty} {step : Check α} {watch : Watch}
      {nodes : List Node} {call : Call} (hcall : Calls setting call step)
      (htypes : ∀ t ∈ call.types, t.MadeFrom known)
      (hstep : Follows setting known step watch nodes) :
      Follows setting known step (Watch.within call watch) (call.node?.toList ++ nodes)
  | expanding {α : Type} [Holds α] {known : List Ty} {step : Check α} {watch : Watch}
      {nodes : List Node} {t : Ty} (ht : t.MadeFrom known)
      (hstep : Follows setting known step watch nodes) :
      Follows setting known step (setting.expanding t watch) nodes

/-! ## Steps made of primitive ones -/

theorem upon_inContext {α β : Type} (context : String) (step : Check α) (session : Session)
    (next : α → Session → List β) :
    (inContext context step).upon session next = step.upon session next := by
  have hrun : runOn (inContext context step) session =
      ((runOn step session).1.mapError (TypeError.withContext context), (runOn step session).2) :=
    rfl
  unfold upon
  rw [hrun]
  rcases runOn step session with ⟨outcome, after⟩
  cases outcome <;> rfl

theorem arrived_inContext {α : Type} [Holds α] (context : String) (step : Check α) (p : Point) :
    (inContext context step).arrived p = step.arrived p := by
  have hrun : runOn (inContext context step) p.session =
      ((runOn step p.session).1.mapError (TypeError.withContext context),
        (runOn step p.session).2) :=
    rfl
  unfold arrived
  rw [hrun]
  rcases runOn step p.session with ⟨outcome, after⟩
  cases outcome with
  | ok a => rfl
  | error error =>
      show Point.mk _ _ ((error.withContext context).types ++ _) _ = _
      rw [TypeError.types_withContext]

theorem watched_inContext {α : Type} [Holds α] (context : String) (step : Check α)
    (inside : Watch) (next : α → Watch) :
    (inContext context step).watched inside next = step.watched inside next := by
  funext p
  unfold watched
  rw [arrived_inContext, upon_inContext]

variable {setting : Setting} {known : List Ty}

namespace Follows

/-- What follows a step may submit equations only. -/
theorem settle {α β : Type} [Holds α] [Holds β] {step : Check α} {next : α → Check β}
    {watch : Watch} {nextWatch : α → Watch} {nodes : List Node}
    (hstep : step.Follows setting known watch nodes)
    (hnext : ∀ a, step.MayGive a →
      (next a).Follows setting (Holds.types a ++ known) (nextWatch a) []) :
    (step >>= next).Follows setting known (step.watched watch nextWatch) nodes := by
  have h := hstep.bind hnext
  rwa [List.append_nil] at h

/-- The point at which a step has its answer. -/
theorem arrives {α : Type} [Holds α] {step : Check α} {watch : Watch} {nodes : List Node}
    (hstep : step.Follows setting known watch nodes) :
    step.Follows setting known (step.watched watch fun _ => silent) nodes := by
  have h := hstep.settle fun a _ => .pure (Holds.madeFrom_answer a known)
  rwa [bind_pure] at h

theorem answer {t : Ty} (ht : t.MadeFrom known) :
    (Pure.pure t : Check Ty).Follows setting known silent [] :=
  .pure (List.forall_mem_singleton.mpr ht)

theorem done : (Pure.pure () : Check Unit).Follows setting known silent [] :=
  .pure (List.forall_mem_nil _)

end Follows

theorem follows_fresh (setting : Setting) (known : List Ty) :
    fresh.Follows setting known silent [] :=
  .last .freshVar fun _ _ => .answer (Ty.madeFrom_of_mem List.mem_cons_self)

theorem follows_freshFor {α : Type} (setting : Setting) (xs : List α) (known : List Ty) :
    (freshFor xs).Follows setting known (freshForWatch xs) [] := by
  induction xs generalizing known with
  | nil => exact .pure (List.forall_mem_nil _)
  | cons x xs ih =>
      refine (follows_fresh setting known).bind fun t _ => ?_
      refine (ih _).last fun ts _ => .pure (List.forall_mem_cons.mpr ⟨?_, ?_⟩)
      · exact (t.madeFrom_answer known).more ts
      · exact Holds.madeFrom_answer ts _

/-! ## Lowering -/

theorem lowering_bind {α β : Type} (names : Table String TypeVar) (term : StateM Naming α)
    (next : α → StateM Naming β) :
    lowering names (term >>= next) =
      (lowering names term >>= fun answer => lowering answer.2 (next answer.1)) :=
  rfl

theorem follows_lowered {α : Type} [Holds α] {names : Table String TypeVar} {a : α}
    (ha : Holds.MadeFrom known a) (hnames : Holds.MadeFrom known names) :
    (lowering names (pure a)).Follows setting known silent [] :=
  Follows.pure (Holds.madeFrom_pair.mpr ⟨ha, hnames⟩ : Holds.MadeFrom known (a, names))

/-- A type that is all that comes of an answer. -/
theorem follows_lowered_last {α : Type} [Holds α] {term : StateM Naming α}
    {names : Table String TypeVar} {watch : Watch} {f : α → Ty}
    (hstep : (lowering names term).Follows setting known watch [])
    (hf : ∀ a (known : List Ty), Holds.MadeFrom known a → (f a).MadeFrom known) :
    (lowering names (term >>= fun a => pure (f a))).Follows setting known watch [] := by
  rw [lowering_bind]
  refine hstep.last fun answer _ => ?_
  obtain ⟨ha, hnames⟩ := Holds.madeFrom_pair.mp (Holds.madeFrom_answer answer known)
  exact follows_lowered (Holds.madeFrom_type.mpr (hf _ _ ha)) hnames

/-- What comes of two answers, one lowered after the other. -/
theorem follows_lowered_pair {α β γ : Type} [Holds α] [Holds β] [Holds γ] {first : StateM Naming α}
    {second : StateM Naming β} {names : Table String TypeVar} {watch : Watch}
    {nextWatch : Table String TypeVar → Watch} {f : α → β → γ}
    (hfirst : (lowering names first).Follows setting known watch [])
    (hsecond : ∀ (names : Table String TypeVar) (known : List Ty), Holds.MadeFrom known names →
      (lowering names second).Follows setting known (nextWatch names) [])
    (hf : ∀ a b (known : List Ty), Holds.MadeFrom known a → Holds.MadeFrom known b →
      Holds.MadeFrom known (f a b)) :
    (lowering names (first >>= fun a => second >>= fun b => pure (f a b))).Follows setting known
      ((lowering names first).watched watch fun answer =>
        (lowering answer.2 second).watched (nextWatch answer.2) fun _ => silent) [] := by
  rw [lowering_bind]
  refine hfirst.bind fun answer _ => ?_
  obtain ⟨ha, hnames⟩ := Holds.madeFrom_pair.mp (Holds.madeFrom_answer answer known)
  rw [lowering_bind]
  refine (hsecond answer.2 _ hnames).bind fun answer' _ => ?_
  obtain ⟨hb, hnames'⟩ := Holds.madeFrom_pair.mp (Holds.madeFrom_answer answer' _)
  exact follows_lowered (hf _ _ _ (ha.more _) hb) hnames'

end Check

open Check Watch

mutual

theorem follows_lower (setting : Setting) : (term : TypeTerm) → (names : Table String TypeVar) →
    (known : List Ty) → Holds.MadeFrom known names →
    (lowering names term.lower).Follows setting known (term.lowerWatch names) []
  | .var name, names, known, hnames => by
      rw [TypeTerm.lower]
      exact follows_lowered_last (.named hnames) fun v _ hv => List.forall_mem_singleton.mp hv
  | .con _, _, _, hnames | .data _ _, _, _, hnames => by
      rw [TypeTerm.lower]
      exact follows_lowered (Holds.madeFrom_type.mpr Ty.all_con) hnames
  | .constraint ⟨className, params⟩, names, known, hnames => by
      rw [TypeTerm.lower, TypeTerm.lowerWatch]
      exact follows_lowered_last (follows_lowerAll setting params names known hnames)
        fun args _ hargs => Ty.all_app.mpr ⟨Ty.all_con, hargs⟩
  | .qualified _ body, names, known, hnames => by
      rw [TypeTerm.lower, TypeTerm.lowerWatch]
      exact follows_lower setting body names known hnames
  | .arrow inputs output, names, known, hnames => by
      rw [TypeTerm.lower, TypeTerm.lowerWatch]
      refine follows_lowered_pair (follows_lowerAll setting inputs names known hnames)
        (follows_lower setting output) ?_
      exact fun inputs output _ hinputs houtput => Holds.madeFrom_type.mpr
        (Ty.all_curried hinputs (Holds.madeFrom_type.mp houtput))
  | .apply base args, names, known, hnames => by
      rw [TypeTerm.lower, TypeTerm.lowerWatch]
      refine follows_lowered_pair (follows_lower setting base names known hnames)
        (follows_lowerAll setting args) ?_
      exact fun base args _ hbase hargs => Holds.madeFrom_type.mpr
        (Ty.all_app.mpr ⟨Holds.madeFrom_type.mp hbase, hargs⟩)
  | .list element, names, known, hnames => by
      rw [TypeTerm.lower, TypeTerm.lowerWatch]
      exact follows_lowered_last (follows_lower setting element names known hnames)
        fun t _ ht => Ty.all_list.mpr (Holds.madeFrom_type.mp ht)
  | .tuple elements, names, known, hnames => by
      rw [TypeTerm.lower, TypeTerm.lowerWatch]
      exact follows_lowered_last (follows_lowerAll setting elements names known hnames)
        fun ts _ hts => Ty.all_tuple.mpr hts
  | .conditional _ _ _, names, known, hnames => by
      rw [TypeTerm.lower]
      exact follows_lowered_last (.unnamed hnames) fun v _ hv => List.forall_mem_singleton.mp hv

theorem follows_lowerAll (setting : Setting) : (terms : List TypeTerm) →
    (names : Table String TypeVar) → (known : List Ty) → Holds.MadeFrom known names →
    (lowering names (TypeTerm.lowerAll terms)).Follows setting known
      (TypeTerm.lowerAllWatch terms names) []
  | [], names, known, hnames => by
      rw [TypeTerm.lowerAll, TypeTerm.lowerAllWatch]
      exact follows_lowered (List.forall_mem_nil _) hnames
  | term :: rest, names, known, hnames => by
      rw [TypeTerm.lowerAll, TypeTerm.lowerAllWatch]
      refine follows_lowered_pair (follows_lower setting term names known hnames)
        (follows_lowerAll setting rest) ?_
      exact fun t ts _ ht hts => List.forall_mem_cons.mpr ⟨Holds.madeFrom_type.mp ht, hts⟩

end

theorem follows_signature (setting : Setting) (signature : Signature) (known : List Ty) :
    (lowering {} signature.lower).Follows setting known signature.lowerWatch [] :=
  follows_lowered_pair (follows_lowerAll setting signature.inputs {} known (List.forall_mem_nil _))
    (follows_lower setting signature.output)
    fun _ _ _ hinputs houtput => Holds.madeFrom_pair.mpr ⟨hinputs, houtput⟩

namespace Setting

variable (setting : Setting) {known : List Ty}

/-! ## Names and operands -/

theorem follows_lookup (name : String) (known : List Ty) :
    (setting.lookup name).Follows setting known (setting.lookupWatch name) [] := by
  refine .look name (fun session => setting.foundWatch name (session.scopes.lookup name))
    fun session => ?_
  unfold foundWatch
  cases session.scopes.lookup name with
  | some t => exact .answer (Ty.madeFrom_of_mem List.mem_cons_self)
  | none =>
      cases setting.globals.signatures.get? name with
      | some signature =>
          refine (follows_signature setting signature _).last fun answer _ => ?_
          have hlowered := Holds.madeFrom_pair.mp (Holds.madeFrom_answer answer known)
          obtain ⟨hinputs, houtput⟩ := Holds.madeFrom_pair.mp hlowered.1
          exact .answer (Ty.all_curried hinputs (Holds.madeFrom_type.mp houtput))
      | none =>
          cases setting.globals.constructors.get? name with
          | some info =>
              have hnames : Holds.MadeFrom known ({} : Table String TypeVar) :=
                List.forall_mem_nil _
              refine (follows_lowerAll setting _ {} known hnames).last fun answer _ => ?_
              have hlowered := Holds.madeFrom_pair.mp (Holds.madeFrom_answer answer known)
              exact .answer (Ty.all_curried hlowered.1 Ty.all_con)
          | none =>
              cases Prelude.builtin? name with
              | some scheme =>
                  refine (follows_freshFor setting _ known).last fun types _ => .answer ?_
                  -- A variable of the scheme becomes one of the new types, or nothing at all.
                  refine Ty.all_subst_iff.mpr fun v _ => ?_
                  show (types.getD v.id (.tuple [])).MadeFrom (types ++ known)
                  rw [List.getD_eq_getElem?_getD]
                  cases hget : types[v.id]? with
                  | some t => exact Holds.madeFrom_answer types known t (List.mem_of_getElem? hget)
                  | none => exact Ty.all_tuple.mpr (List.forall_mem_nil _)
              | none => exact follows_fresh setting known

/-- An equation with more to do after it. -/
theorem follows_equating {β : Type} [Holds β] {context : String} {expected found : Ty}
    (hexpected : expected.MadeFrom known) (hfound : found.MadeFrom known) {next : Unit → Check β}
    {watch : Watch} {nodes : List Node}
    (hnext : (next ()).Follows setting known watch nodes) :
    (setting.constrainIn context expected found >>= next).Follows setting known
      (setting.equating expected found watch) nodes := by
  have hequation : (setting.constrain expected found).Follows setting known
      (setting.equationWatch expected found) [] := .constrain hexpected hfound
  have h := (hequation.inContext context).bind fun _ _ => hnext
  rwa [watched_inContext] at h

/-- An equation at the end of a step. -/
theorem follows_equation (context : String) {expected found : Ty}
    (hexpected : expected.MadeFrom known) (hfound : found.MadeFrom known) :
    (setting.constrainIn context expected found).Follows setting known
      (setting.equating expected found silent) [] := by
  have hequation : (setting.constrain expected found).Follows setting known
      (setting.equationWatch expected found) [] := .constrain hexpected hfound
  have h := (hequation.inContext context).arrives
  rwa [watched_inContext] at h

theorem follows_checkOperand (operator : String) (allowed : Ty → Bool) {operand : Ty}
    (h : operand.MadeFrom known) :
    (setting.checkOperand operator operand allowed).Follows setting known
      (setting.operandWatch operand) [] := by
  refine (Follows.resolve h).bind fun resolved _ => .expanding (resolved.madeFrom_answer known) ?_
  have hanswer : (pure resolved : Check Ty).Follows setting (Holds.types resolved ++ known) silent
      [] := .answer (resolved.madeFrom_answer known)
  split
  · exact hanswer
  · split
    · exact hanswer
    · exact .throw (List.forall_mem_singleton.mpr (resolved.madeFrom_answer known))

theorem follows_joined (operator : String) {left right : Ty} (hleft : left.MadeFrom known)
    (hright : right.MadeFrom known) :
    (setting.joined operator left right).Follows setting known
      (setting.equating left right (setting.operandWatch left)) [] :=
  setting.follows_equating hleft hright (setting.follows_checkOperand _ _ hleft)

theorem follows_operated (operator : Operator) {left right : Ty} (hleft : left.MadeFrom known)
    (hright : right.MadeFrom known) :
    (setting.operated operator left right).Follows setting known
      (setting.operatedWatch operator left right) [] := by
  cases operator with
  | arithmetic operator | bitwise operator =>
      exact setting.follows_equating hleft hright (setting.follows_checkOperand _ _ hleft)
  | comparison operator => exact setting.follows_equating hleft hright (.answer Ty.all_con)
  | logical operator =>
      exact setting.follows_equating Ty.all_con hleft
        (setting.follows_equating Ty.all_con hright (.answer Ty.all_con))
  | concat => exact setting.follows_joined _ hleft hright

theorem follows_constructorFor (name : String) (given : Nat) (known : List Ty) :
    (setting.constructorFor name given).Follows setting known silent [] := by
  unfold constructorFor
  split
  · exact .throw (List.forall_mem_nil _)
  · split
    · exact .pure (List.forall_mem_nil _)
    · exact .throw (List.forall_mem_nil _)

theorem follows_literal {p : Primitive} (h : ∀ elements loc, p ≠ .list elements loc)
    (known : List Ty) :
    (setting.inferPrimitive p).Follows setting known (setting.literalWatch p) [] := by
  cases p with
  | number kind _ _ =>
      rw [inferPrimitive, literalWatch]
      split
      · exact .freshNumeric
      · exact .answer Ty.all_con
  | boolean | char | string =>
      rw [inferPrimitive]
      exact .answer Ty.all_con
  | null | undefined =>
      rw [inferPrimitive]
      exact follows_fresh setting known
  | symbol name =>
      rw [inferPrimitive]
      exact setting.follows_lookup name.value known
  | list elements loc => exact (h elements loc rfl).elim

/-! ## Expressions and patterns -/

/-- The call for an expression, from the run on its form. -/
theorem follows_form {e : Expression} {watch : Watch}
    (h : (setting.inferExpression e).Follows setting known watch (Node.ofForm e).typedNodes) :
    (setting.inferExpression e).Follows setting known (within (.expression e) watch)
      (Node.expression e).typedNodes := by
  rw [Node.typedNodes_expression]
  exact .within (.expression e) (List.forall_mem_nil _) h

/-- The call for a pattern, from the run on its parts. -/
theorem follows_parts {pattern : Pattern} {expected : Ty} (hexpected : expected.MadeFrom known)
    {watch : Watch}
    (h : (setting.bindPattern pattern expected).Follows setting known watch
      (Node.typedNodesOf (Node.ofPattern pattern))) :
    (setting.bindPattern pattern expected).Follows setting known
      (within (.pattern pattern expected) watch) (Node.pattern pattern).typedNodes := by
  rw [Node.typedNodes_of_typed rfl]
  exact .within (.pattern pattern expected) (List.forall_mem_singleton.mpr hexpected) h

mutual

theorem follows_expression : (e : Expression) → (known : List Ty) →
    (setting.inferExpression e).Follows setting known (setting.expressionWatch e)
      (Node.expression e).typedNodes
  | .primitive p, known => by
      rw [expressionWatch]
      refine setting.follows_form ?_
      rw [inferExpression]
      exact follows_primitive p known
  | .operation o, known => by
      rw [expressionWatch]
      refine setting.follows_form ?_
      rw [inferExpression]
      exact follows_operation o known
  | .tuple elements, known => by
      rw [expressionWatch]
      refine setting.follows_form ?_
      rw [inferExpression, Node.ofForm, Node.typedNodes_of_children rfl rfl]
      refine (follows_all elements known).last fun ts _ => .answer ?_
      exact Ty.all_tuple.mpr (Holds.madeFrom_answer ts known)
  | .conditional condition yes no, known => by
      have htree : (Node.conditional condition yes no).typedNodes =
          (Node.expression condition).typedNodes ++
            ((Node.expression yes).typedNodes ++ (Node.expression no).typedNodes) := by
        rw [Node.typedNodes_of_children rfl rfl]
        simp [Node.children]
      rw [expressionWatch]
      refine setting.follows_form ?_
      rw [inferExpression, Node.ofForm, htree]
      refine (follows_expression condition known).bind fun conditionType _ => ?_
      refine setting.follows_equating Ty.all_con (conditionType.madeFrom_answer _) ?_
      refine (follows_expression yes _).bind fun yesType _ => ?_
      refine (follows_expression no _).settle fun noType _ => ?_
      have hyes := (yesType.madeFrom_answer (conditionType :: known)).more [noType]
      exact setting.follows_equating hyes (noType.madeFrom_answer _) (.resolve hyes)
  | .cons head tail, known => by
      rw [expressionWatch]
      refine setting.follows_form ?_
      rw [inferExpression, Node.ofForm, Node.typedNodes_pair rfl rfl]
      refine (follows_expression head known).bind fun headType _ => ?_
      refine (follows_expression tail _).settle fun tailType _ => ?_
      have hlist := Ty.all_list.mpr ((headType.madeFrom_answer known).more [tailType])
      exact setting.follows_equating hlist (tailType.madeFrom_answer _) (.resolve hlist)
  | .data name fields, known => by
      have htree : (Node.data name fields).typedNodes =
          Node.typedNodesOf (fields.map .fieldExpression) := by
        rw [Node.typedNodes_of_children rfl rfl]
        simp [Node.children]
      rw [expressionWatch]
      refine setting.follows_form ?_
      rw [inferExpression, Node.ofForm, htree]
      cases setting.globals.constructors.get? name.value with
      | none => exact .throw (List.forall_mem_nil _)
      | some info =>
          dsimp only
          split
          · exact .throw (List.forall_mem_nil _)
          · exact (follows_fields name.value info fields 0 {} known (List.forall_mem_nil _)).last
              fun _ _ => .answer Ty.all_con
  | .composition left right, known => by
      rw [expressionWatch]
      refine setting.follows_form ?_
      rw [inferExpression, Node.ofForm, Node.typedNodes_pair rfl rfl]
      refine (follows_expression left known).bind fun leftType _ => ?_
      refine (follows_expression right _).settle fun rightType _ => ?_
      refine (follows_fresh setting _).settle fun a _ => ?_
      refine (follows_fresh setting _).settle fun b _ => ?_
      refine (follows_fresh setting _).settle fun c _ => ?_
      have hhand := Holds.madeFrom_answer [c, b, a, rightType, leftType] known
      have ha := hhand a (by simp [Holds.types])
      have hb := hhand b (by simp [Holds.types])
      have hc := hhand c (by simp [Holds.types])
      have hleft := hhand leftType (by simp [Holds.types])
      have hright := hhand rightType (by simp [Holds.types])
      refine setting.follows_equating (Ty.all_func.mpr ⟨hb, hc⟩) hleft ?_
      exact setting.follows_equating (Ty.all_func.mpr ⟨ha, hb⟩) hright
        (.resolve (Ty.all_func.mpr ⟨ha, hc⟩))
  | .lambda parameters body, known => by
      have htree : (Node.lambda parameters body).typedNodes =
          Node.typedNodesOf (parameters.map .pattern) ++ (Node.expression body).typedNodes := by
        rw [Node.typedNodes_of_children rfl rfl, Node.children, Node.typedNodesOf_append]
        simp
      rw [expressionWatch]
      refine setting.follows_form ?_
      rw [inferExpression, Node.ofForm, htree]
      refine .inNewScope ?_
      refine (follows_parameters parameters known).bind fun inputs _ => ?_
      refine (follows_expression body _).settle fun output _ => .resolve ?_
      have hinputs := (Holds.madeFrom_answer inputs known).more [output]
      exact Ty.all_curried hinputs (output.madeFrom_answer _)
  | .application f argument, known => by
      rw [expressionWatch]
      refine setting.follows_form ?_
      rw [inferExpression, Node.ofForm, Node.typedNodes_pair rfl rfl]
      refine (follows_expression f known).bind fun functionType _ => ?_
      refine (follows_expression argument _).settle fun argumentType _ => ?_
      refine (follows_fresh setting _).settle fun result _ => ?_
      have hhand := Holds.madeFrom_answer [result, argumentType, functionType] known
      have hfunction := hhand functionType (by simp [Holds.types])
      have hargument := hhand argumentType (by simp [Holds.types])
      have hresult := hhand result (by simp [Holds.types])
      exact setting.follows_equating hfunction (Ty.all_func.mpr ⟨hargument, hresult⟩)
        (.resolve hresult)
  | .infixed operator left right, known => by
      have htree : (Node.infixed operator left right).typedNodes =
          (Node.expression left).typedNodes ++ (Node.expression right).typedNodes := by
        rw [Node.typedNodes_of_children rfl rfl]
        simp [Node.children]
      rw [expressionWatch]
      refine setting.follows_form ?_
      rw [inferExpression, Node.ofForm, htree]
      refine .look operator.value (fun session =>
        if operator.value = "++" && !setting.declares session.scopes operator.value then _ else _)
        fun session => ?_
      split
      · refine (follows_expression left _).bind fun leftType _ => ?_
        refine (follows_expression right _).settle fun rightType _ => ?_
        exact setting.follows_joined _ ((leftType.madeFrom_answer _).more _)
          (rightType.madeFrom_answer _)
      · refine (setting.follows_lookup operator.value _).bind fun operatorType _ => ?_
        refine (follows_expression left _).bind fun leftType _ => ?_
        refine (follows_expression right _).settle fun rightType _ => ?_
        refine (follows_fresh setting _).settle fun result _ => ?_
        have hhand := Holds.madeFrom_answer [result, rightType, leftType, operatorType]
          ((session.scopes.lookup operator.value).toList ++ known)
        have hoperator := hhand operatorType (by simp [Holds.types])
        have hleft := hhand leftType (by simp [Holds.types])
        have hright := hhand rightType (by simp [Holds.types])
        have hresult := hhand result (by simp [Holds.types])
        have hfound := Ty.all_curried (List.forall_mem_cons.mpr
          ⟨hleft, List.forall_mem_singleton.mpr hright⟩) hresult
        exact setting.follows_equating hoperator hfound (.resolve hresult)

theorem follows_primitive : (p : Primitive) → (known : List Ty) →
    (setting.inferPrimitive p).Follows setting known (setting.primitiveWatch p)
      (Node.primitive p).typedNodes
  | .list elements loc, known => by
      rw [primitiveWatch, Node.typedNodes_of_typed rfl]
      refine .within (.primitive _) (List.forall_mem_nil _) ?_
      rw [inferPrimitive]
      refine (follows_fresh setting known).bind fun element _ => ?_
      have helement := element.madeFrom_answer known
      exact (follows_elements element elements _ helement).last fun _ _ =>
        .resolve (Ty.all_list.mpr helement)
  | .number .., known | .boolean .., known | .char .., known | .string .., known
  | .null .., known | .undefined .., known | .symbol .., known => by
      rw [primitiveWatch, Node.typedNodes_of_typed rfl]
      · exact .within (.primitive _) (List.forall_mem_nil _)
          (setting.follows_literal (by simp) known)
      · simp

theorem follows_operation : (o : Operation) → (known : List Ty) →
    (setting.inferOperation o).Follows setting known (setting.operationWatch o)
      (Node.operation o).typedNodes
  | ⟨operator, left, right, _⟩, known => by
      rw [inferOperation, operationWatch, Node.typedNodes_pair rfl rfl]
      refine (follows_expression left known).bind fun leftType _ => ?_
      refine (follows_expression right _).settle fun rightType _ => ?_
      exact setting.follows_operated operator ((leftType.madeFrom_answer known).more _)
        (rightType.madeFrom_answer _)

theorem follows_all : (es : List Expression) → (known : List Ty) →
    (setting.inferAll es).Follows setting known (setting.allWatch es)
      (Node.typedNodesOf (es.map .expression))
  | [], known => by
      rw [inferAll, allWatch]
      exact .pure (List.forall_mem_nil _)
  | e :: rest, known => by
      rw [inferAll, allWatch, List.map_cons, Node.typedNodesOf_cons]
      refine (follows_expression e known).bind fun t _ => ?_
      refine (follows_all rest _).last fun ts _ => .pure ?_
      exact List.forall_mem_cons.mpr
        ⟨(t.madeFrom_answer known).more ts, Holds.madeFrom_answer ts _⟩

theorem follows_elements (element : Ty) : (es : List Expression) → (known : List Ty) →
    element.MadeFrom known →
    (setting.inferElements element es).Follows setting known (setting.elementWatch element es)
      (Node.typedNodesOf (es.map .expression))
  | [], known, _ => by
      rw [inferElements, elementWatch]
      exact .done
  | e :: rest, known, helement => by
      rw [inferElements, elementWatch, List.map_cons, Node.typedNodesOf_cons]
      refine (follows_expression e known).bind fun found _ => ?_
      have helement' := helement.more [found]
      exact setting.follows_equating helement' (found.madeFrom_answer known)
        (follows_elements element rest _ helement')

theorem follows_fields (name : String) (info : ConstructorInfo) :
    (fields : List FieldExpression) → (position : Nat) → (names : Table String TypeVar) →
    (known : List Ty) → Holds.MadeFrom known names →
    (setting.inferFields name info fields position names).Follows setting known
      (setting.fieldWatch info fields position names)
      (Node.typedNodesOf (fields.map .fieldExpression))
  | [], _, _, known, _ => by
      rw [inferFields, fieldWatch]
      exact .done
  | ⟨fieldName, value⟩ :: rest, position, names, known, hnames => by
      rw [inferFields, fieldWatch, List.map_cons, Node.typedNodesOf_cons, Node.typedNodes_field]
      cases info.fieldFor? position fieldName.value with
      | none => exact .throw (List.forall_mem_nil _)
      | some field =>
          refine (follows_lower setting field.value names known hnames).bind fun answer _ => ?_
          have hlowered := Holds.madeFrom_pair.mp (Holds.madeFrom_answer answer known)
          refine (follows_expression value _).bind fun found _ => ?_
          have hexpected := (Holds.madeFrom_type.mp hlowered.1).more [found]
          exact setting.follows_equating hexpected (found.madeFrom_answer _)
            (follows_fields name info rest (position + 1) answer.2 _ (hlowered.2.more _))

theorem follows_pattern : (p : Pattern) → (expected : Ty) → (known : List Ty) →
    expected.MadeFrom known →
    (setting.bindPattern p expected).Follows setting known (setting.patternWatch p expected)
      (Node.pattern p).typedNodes
  | .wildcard, expected, known, hexpected => by
      rw [patternWatch]
      refine setting.follows_parts hexpected ?_
      rw [bindPattern, Node.ofPattern]
      exact .done
  | .literal p, expected, known, hexpected => by
      rw [patternWatch]
      refine setting.follows_parts hexpected ?_
      rw [bindPattern, Node.ofPattern, Node.typedNodesOf_singleton]
      refine (follows_primitive p known).settle fun found _ => ?_
      exact setting.follows_equation _ (hexpected.more _) (found.madeFrom_answer known)
  | .var symbol, expected, known, hexpected => by
      rw [patternWatch]
      refine setting.follows_parts hexpected ?_
      rw [bindPattern, Node.ofPattern, Node.typedNodesOf_singleton, Node.typedNodes_symbol]
      exact .bindName hexpected
  | .constructor name patterns, expected, known, hexpected => by
      rw [patternWatch]
      refine setting.follows_parts hexpected ?_
      rw [bindPattern, Node.ofPattern]
      split
      · next htruth =>
          obtain ⟨_, hnone⟩ := Bool.and_eq_true_iff.mp htruth
          rw [List.isEmpty_iff.mp hnone]
          exact (Follows.constrain hexpected Ty.all_con).arrives
      · refine (setting.follows_constructorFor name _ known).bind fun info hinfo => ?_
        obtain ⟨_, _, hgives⟩ := hinfo
        have hlength := (setting.gives_constructorFor.mp hgives).1.2
        exact setting.follows_equating hexpected Ty.all_con
          (follows_fieldPatterns patterns info.fields {} known (Nat.le_of_eq hlength.symm)
            (List.forall_mem_nil _))
  | .list elements, expected, known, hexpected => by
      rw [patternWatch]
      refine setting.follows_parts hexpected ?_
      rw [bindPattern, Node.ofPattern]
      refine (follows_fresh setting known).bind fun element _ => ?_
      have helement := element.madeFrom_answer known
      exact setting.follows_equating (hexpected.more _) (Ty.all_list.mpr helement)
        (follows_each elements element _ helement)
  | .cons head tail, expected, known, hexpected => by
      rw [patternWatch]
      refine setting.follows_parts hexpected ?_
      rw [bindPattern, Node.ofPattern, Node.typedNodesOf_cons, Node.typedNodesOf_singleton]
      refine (follows_fresh setting known).bind fun element _ => ?_
      have helement := element.madeFrom_answer known
      have hlist := Ty.all_list.mpr helement
      refine setting.follows_equating (hexpected.more _) hlist ?_
      exact (follows_pattern head element _ helement).bind fun _ _ =>
        (follows_pattern tail (.list element) _ hlist).arrives
  | .as whole pattern, expected, known, hexpected => by
      rw [patternWatch]
      refine setting.follows_parts hexpected ?_
      rw [bindPattern, Node.ofPattern, Node.typedNodesOf_cons, Node.typedNodesOf_singleton]
      exact (follows_pattern whole expected known hexpected).bind fun _ _ =>
        (follows_pattern pattern expected known hexpected).arrives
  | .tuple elements, expected, known, hexpected => by
      rw [patternWatch]
      refine setting.follows_parts hexpected ?_
      rw [bindPattern, Node.ofPattern]
      refine (follows_freshFor setting elements known).bind fun types htypes => ?_
      obtain ⟨_, _, hgives⟩ := htypes
      have hknown := Holds.madeFrom_answer types known
      exact setting.follows_equating (hexpected.more _) (Ty.all_tuple.mpr hknown)
        (follows_row elements types _ (Nat.le_of_eq (length_of_freshFor hgives).symm) hknown)

theorem follows_fieldPatterns : (patterns : List Pattern) → (fields : List Field) →
    (names : Table String TypeVar) → (known : List Ty) → patterns.length ≤ fields.length →
    Holds.MadeFrom known names →
    (setting.bindFields patterns fields names).Follows setting known
      (setting.fieldPatternWatch patterns fields names)
      (Node.typedNodesOf (patterns.map .pattern))
  | [], _, _, known, _, _ => by
      rw [bindFields, fieldPatternWatch]
      · exact .done
      · simp
      · simp
  | pattern :: rest, [], _, _, hlength, _ => by simp at hlength
  | pattern :: rest, field :: fields, names, known, hlength, hnames => by
      rw [bindFields, fieldPatternWatch, List.map_cons, Node.typedNodesOf_cons]
      refine (follows_lower setting field.value names known hnames).bind fun answer _ => ?_
      have hlowered := Holds.madeFrom_pair.mp (Holds.madeFrom_answer answer known)
      exact (follows_pattern pattern answer.1 _ (Holds.madeFrom_type.mp hlowered.1)).bind
        fun _ _ => follows_fieldPatterns rest fields answer.2 _ (Nat.le_of_succ_le_succ hlength)
          hlowered.2

theorem follows_each : (patterns : List Pattern) → (expected : Ty) → (known : List Ty) →
    expected.MadeFrom known →
    (setting.bindEach patterns expected).Follows setting known
      (setting.eachWatch patterns expected) (Node.typedNodesOf (patterns.map .pattern))
  | [], _, known, _ => by
      rw [bindEach, eachWatch]
      exact .done
  | pattern :: rest, expected, known, hexpected => by
      rw [bindEach, eachWatch, List.map_cons, Node.typedNodesOf_cons]
      exact (follows_pattern pattern expected known hexpected).bind fun _ _ =>
        follows_each rest expected known hexpected

theorem follows_row : (patterns : List Pattern) → (types : List Ty) → (known : List Ty) →
    patterns.length ≤ types.length → Holds.MadeFrom known types →
    (setting.bindAll patterns types).Follows setting known (setting.rowWatch patterns types)
      (Node.typedNodesOf (patterns.map .pattern))
  | [], _, known, _, _ => by
      rw [bindAll, rowWatch]
      · exact .done
      · simp
      · simp
  | pattern :: rest, [], _, hlength, _ => by simp at hlength
  | pattern :: rest, expected :: types, known, hlength, htypes => by
      rw [bindAll, rowWatch, List.map_cons, Node.typedNodesOf_cons]
      obtain ⟨hexpected, hrest⟩ := List.forall_mem_cons.mp htypes
      exact (follows_pattern pattern expected known hexpected).bind fun _ _ =>
        follows_row rest types known (Nat.le_of_succ_le_succ hlength) hrest

theorem follows_parameters : (patterns : List Pattern) → (known : List Ty) →
    (setting.bindParameters patterns).Follows setting known (setting.parameterWatch patterns)
      (Node.typedNodesOf (patterns.map .pattern))
  | [], known => by
      rw [bindParameters, parameterWatch]
      exact .pure (List.forall_mem_nil _)
  | pattern :: rest, known => by
      rw [bindParameters, parameterWatch, List.map_cons, Node.typedNodesOf_cons]
      refine (follows_fresh setting known).bind fun t _ => ?_
      have ht := t.madeFrom_answer known
      refine (follows_pattern pattern t _ ht).bind fun _ _ => ?_
      refine (follows_parameters rest _).last fun ts _ => .pure ?_
      exact List.forall_mem_cons.mpr ⟨ht.more ts, Holds.madeFrom_answer ts _⟩

end

theorem follows_check (context : String) {expected : Ty} (e : Expression)
    (hexpected : expected.MadeFrom known) :
    (setting.checkExpression context expected e).Follows setting known
      (setting.checkWatch expected e) (Node.expression e).typedNodes :=
  (setting.follows_expression e known).settle fun found _ =>
    setting.follows_equation context (hexpected.more _) (found.madeFrom_answer known)

/-! ## Clauses -/

/-- A step that reports errors is built from steps that may fail, along with its watch. If it
reports none, it has called the checker on the given nodes. -/
inductive Reports (record : TypeError → Diagnostic) :
    List Ty → StateM Session (List TypeError) → Watch → List Node → Prop where
  | nothing {known : List Ty} : Reports record known (pure []) silent []
  | refused {known : List Ty} {error : TypeError} {nodes : List Node}
      (herror : ∀ t ∈ error.types, t.MadeFrom known) :
      Reports record known (pure [error])
        (moving fun p => { p with recorded := p.recorded ++ [record error] }) nodes
  | tried {known : List Ty} {step : Check Unit} {rest : StateM Session (List TypeError)}
      {inside next : Watch} {nodes nodes' : List Node}
      (hstep : step.Follows setting known inside nodes)
      (hrest : Reports record known rest next nodes') :
      Reports record known
        (do
          let errors ← failure step
          let others ← rest
          pure (errors ++ others))
        (step.tried record inside next) (nodes ++ nodes')
  | required {known : List Ty} {step : Check Unit} {rest : StateM Session (List TypeError)}
      {inside next : Watch} {nodes nodes' : List Node}
      (hstep : step.Follows setting known inside nodes)
      (hrest : Reports record known rest next nodes') :
      Reports record known (reporting step rest) (step.required record inside next)
        (nodes ++ nodes')

/-- The errors of a guard come before those of the guards behind it. -/
theorem checkGuards_cons (expected : Ty) (guard : Guard) (rest : List Guard) :
    setting.checkGuards expected (guard :: rest) = (do
      let errors ← failure (setting.checkExpression "guard condition" .bool guard.condition)
      let others ← (do
        let errors ← failure (setting.checkExpression "guard result" expected guard.result)
        let others ← setting.checkGuards expected rest
        pure (errors ++ others))
      pure (errors ++ others)) := by
  funext session
  exact congrArg (·, _) (List.append_assoc _ _ _)

theorem failure_append_nil (step : Check Unit) :
    (do
      let errors ← failure step
      let others ← pure []
      pure (errors ++ others)) = failure step := by
  funext session
  exact congrArg (·, _) (List.append_nil _)

variable (record : TypeError → Diagnostic)

theorem reports_guards {expected : Ty} (guards : List Guard)
    (hexpected : expected.MadeFrom known) :
    setting.Reports record known (setting.checkGuards expected guards)
      (setting.guardWatch record expected guards)
      (Node.typedNodesOf ((ClauseBody.guarded guards).typed.map .expression)) := by
  induction guards with
  | nil => exact .nothing
  | cons guard rest ih =>
      rw [checkGuards_cons]
      exact .tried (setting.follows_check _ _ Ty.all_con)
        (.tried (setting.follows_check _ _ hexpected) ih)

theorem reports_result {expected : Ty} (body : ClauseBody)
    (hexpected : expected.MadeFrom known) :
    setting.Reports record known (setting.checkResult expected body)
      (setting.resultWatch record expected body)
      (Node.typedNodesOf (body.typed.map .expression)) := by
  cases body with
  | unguarded e =>
      rw [checkResult, ← failure_append_nil]
      exact .tried (setting.follows_check _ e hexpected) .nothing
  | guarded guards => exact setting.reports_guards record guards hexpected

/-- A clause from its lowered signature on. -/
theorem reports_clause (clause : Clause) (inputs : List Ty) (output : Ty) :
    setting.Reports record (inputs ++ [output]) (setting.checkAgainst clause inputs output)
      (setting.usedWatch record clause inputs output)
      (Node.typedNodesOf
        (clause.parameters.map .pattern ++ clause.result.typed.map .expression)) := by
  have hinputs := Holds.madeFrom_answer inputs [output]
  have houtput : output.MadeFrom (inputs ++ [output]) := Ty.madeFrom_of_mem List.mem_concat_self
  unfold checkAgainst usedWatch
  dsimp only
  split
  · exact .refused (List.forall_mem_nil _)
  · next hmany =>
      have hlength := Nat.le_of_not_lt hmany
      rw [Node.typedNodesOf_append]
      refine .required (setting.follows_row clause.parameters inputs _ hlength hinputs)
        (setting.reports_result record clause.result ?_)
      exact Ty.all_curried (fun t ht => hinputs t (List.mem_of_mem_drop ht)) houtput

end Setting

end Rubric
