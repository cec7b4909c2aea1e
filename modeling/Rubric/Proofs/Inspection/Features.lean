import Rubric.Inspection.Builtin
import Rubric.Proofs.Tree.Declarations

/-!
# Features of code

An inspection that looks below a function asks for a feature: a lambda, an arithmetic operation,
a composition, a wildcard pattern, or a text. `Shows` says where the syntax has a feature, one
rule for each place that can have it, and it follows expressions, patterns, literals and
right-hand sides to any depth. No rule reads the name of a constructor pattern, the description
of a name, the attributes of a clause or the kind of a number.

The inspections themselves go through the nodes below the function. By induction on the tree,
some node below a piece of code is a feature exactly if the code shows it.
-/

namespace Rubric

/-- What can be looked for in the code of a function. -/
inductive Feature where
  | lambda | arithmetic | composition | wildcard
  /-- A name, a text literal or a character literal. -/
  | text (value : String)

/-- Whether a node is a feature, as inspections see it. -/
def Feature.isAt : Feature → Node → Bool
  | lambda, node => node.kind == .lambdaExpression
  | arithmetic, node => node.kind == .arithmetic
  | composition, node => node.kind == .compositionExpression
  | wildcard, node => node.kind == .wildcardPattern
  | text value, node => node.value? == some value

/-! ## Where code has a feature -/

mutual

/-- An expression has a feature at some depth. -/
inductive Expression.Shows : Feature → Expression → Prop where
  | primitive {feature p} (h : Primitive.Shows feature p) : Expression.Shows feature (.primitive p)
  | operation {feature o} (h : Operation.Shows feature o) : Expression.Shows feature (.operation o)
  | tuple {feature elements e} (hmem : e ∈ elements) (h : Expression.Shows feature e) :
      Expression.Shows feature (.tuple elements)
  | condition {feature condition yes no} (h : Expression.Shows feature condition) :
      Expression.Shows feature (.conditional condition yes no)
  | yes {feature condition yes no} (h : Expression.Shows feature yes) :
      Expression.Shows feature (.conditional condition yes no)
  | no {feature condition yes no} (h : Expression.Shows feature no) :
      Expression.Shows feature (.conditional condition yes no)
  | head {feature head tail} (h : Expression.Shows feature head) :
      Expression.Shows feature (.cons head tail)
  | tail {feature head tail} (h : Expression.Shows feature tail) :
      Expression.Shows feature (.cons head tail)
  | dataName {name fields} : Expression.Shows (.text name.value) (.data name fields)
  | dataField {feature name fields field} (hmem : field ∈ fields)
      (h : FieldExpression.Shows feature field) : Expression.Shows feature (.data name fields)
  | composition {left right} : Expression.Shows .composition (.composition left right)
  | composed {feature left right} (h : Expression.Shows feature left) :
      Expression.Shows feature (.composition left right)
  | composedWith {feature left right} (h : Expression.Shows feature right) :
      Expression.Shows feature (.composition left right)
  | lambda {parameters body} : Expression.Shows .lambda (.lambda parameters body)
  | parameter {feature parameters body p} (hmem : p ∈ parameters) (h : Pattern.Shows feature p) :
      Expression.Shows feature (.lambda parameters body)
  | body {feature parameters body} (h : Expression.Shows feature body) :
      Expression.Shows feature (.lambda parameters body)
  | applied {feature function argument} (h : Expression.Shows feature function) :
      Expression.Shows feature (.application function argument)
  | argument {feature function argument} (h : Expression.Shows feature argument) :
      Expression.Shows feature (.application function argument)
  | infixOperator {operator left right} :
      Expression.Shows (.text operator.value) (.infixed operator left right)
  | infixLeft {feature operator left right} (h : Expression.Shows feature left) :
      Expression.Shows feature (.infixed operator left right)
  | infixRight {feature operator left right} (h : Expression.Shows feature right) :
      Expression.Shows feature (.infixed operator left right)

/-- The field of a data expression has a feature, in its name or in its value. -/
inductive FieldExpression.Shows : Feature → FieldExpression → Prop where
  | name {field} : FieldExpression.Shows (.text field.name.value) field
  | value {feature field} (h : Expression.Shows feature field.value) :
      FieldExpression.Shows feature field

/-- A literal has a feature. A number has none, whatever its kind is called. -/
inductive Primitive.Shows : Feature → Primitive → Prop where
  | symbol {name} : Primitive.Shows (.text name.value) (.symbol name)
  | string {value loc} : Primitive.Shows (.text value) (.string value loc)
  | char {value loc} : Primitive.Shows (.text value) (.char value loc)
  | element {feature elements loc e} (hmem : e ∈ elements) (h : Expression.Shows feature e) :
      Primitive.Shows feature (.list elements loc)

/-- A built-in operation has a feature. -/
inductive Operation.Shows : Feature → Operation → Prop where
  | arithmetic {o operator} (h : o.operator = .arithmetic operator) : Operation.Shows .arithmetic o
  | left {feature o} (h : Expression.Shows feature o.left) : Operation.Shows feature o
  | right {feature o} (h : Expression.Shows feature o.right) : Operation.Shows feature o

/-- A pattern has a feature. The name of a constructor pattern is none. -/
inductive Pattern.Shows : Feature → Pattern → Prop where
  | wildcard : Pattern.Shows .wildcard .wildcard
  | literal {feature p} (h : Primitive.Shows feature p) : Pattern.Shows feature (.literal p)
  | var {name} : Pattern.Shows (.text name.value) (.var name)
  | constructor {feature name patterns p} (hmem : p ∈ patterns) (h : Pattern.Shows feature p) :
      Pattern.Shows feature (.constructor name patterns)
  | list {feature elements p} (hmem : p ∈ elements) (h : Pattern.Shows feature p) :
      Pattern.Shows feature (.list elements)
  | head {feature head tail} (h : Pattern.Shows feature head) :
      Pattern.Shows feature (.cons head tail)
  | tail {feature head tail} (h : Pattern.Shows feature tail) :
      Pattern.Shows feature (.cons head tail)
  | whole {feature whole p} (h : Pattern.Shows feature whole) : Pattern.Shows feature (.as whole p)
  | aliased {feature whole p} (h : Pattern.Shows feature p) : Pattern.Shows feature (.as whole p)
  | tuple {feature elements p} (hmem : p ∈ elements) (h : Pattern.Shows feature p) :
      Pattern.Shows feature (.tuple elements)

end

variable (feature : Feature)

/-- A guarded alternative has a feature in one of its three expressions. -/
def Guard.Shows (guard : Guard) : Prop :=
  guard.condition.Shows feature ∨ guard.body.Shows feature ∨ guard.result.Shows feature

/-- A right-hand side has a feature, guarded or not. -/
def ClauseBody.Shows : ClauseBody → Prop
  | .unguarded e => e.Shows feature
  | .guarded guards => ∃ guard ∈ guards, guard.Shows feature

/-- A clause has a feature in its parameters, its body or its result. -/
def Clause.Shows (clause : Clause) : Prop :=
  (∃ p ∈ clause.parameters, p.Shows feature) ∨ clause.body.Shows feature ∨
    clause.result.Shows feature

namespace Node

/-! ## Where the tree has a feature -/

/-- Whether a node is a function or part of the code of one. -/
def isCode : Node → Bool
  | program _ | signature _ | typeAlias _ | record _ | constructor _ | field _ | constraint _
  | typeTerm _ => false
  | _ => true

/-- A node of code has a feature, at itself or below. -/
def Shows : Node → Prop
  | function g => feature = .text g.name.value ∨ ∃ c ∈ g.clauses, c.Shows feature
  | clause c => c.Shows feature
  | guard g => g.Shows feature
  | expression e => e.Shows feature
  | primitive p => p.Shows feature
  | operation o => o.Shows feature
  | tuple elements => (Expression.tuple elements).Shows feature
  | conditional condition yes no => (Expression.conditional condition yes no).Shows feature
  | cons head tail => (Expression.cons head tail).Shows feature
  | data name fields => (Expression.data name fields).Shows feature
  | fieldExpression f => f.Shows feature
  | composition left right => (Expression.composition left right).Shows feature
  | lambda parameters body => (Expression.lambda parameters body).Shows feature
  | application f argument => (Expression.application f argument).Shows feature
  | infixed operator left right => (Expression.infixed operator left right).Shows feature
  | pattern p => p.Shows feature
  | symbol s => feature = .text s.value
  | _ => False

variable {feature}

theorem shows_ofForm {e : Expression} : (ofForm e).Shows feature ↔ e.Shows feature := by
  cases e with
  | primitive p => exact ⟨.primitive, fun h => by cases h; assumption⟩
  | operation o => exact ⟨.operation, fun h => by cases h; assumption⟩
  | _ => exact Iff.rfl

/-- The nodes that are features. -/
inductive Is : Feature → Node → Prop where
  | lambda {parameters body} : Is .lambda (lambda parameters body)
  | arithmetic {o operator} (h : o.operator = .arithmetic operator) : Is .arithmetic (operation o)
  | composition {left right} : Is .composition (composition left right)
  | wildcard : Is .wildcard (pattern .wildcard)
  | symbol {name} : Is (.text name.value) (symbol name)
  | symbolLiteral {name} : Is (.text name.value) (primitive (.symbol name))
  | string {value loc} : Is (.text value) (primitive (.string value loc))
  | char {value loc} : Is (.text value) (primitive (.char value loc))

theorem isAt_iff {node : Node} : feature.isAt node = true ↔ node.Is feature := by
  constructor
  · intro h
    cases feature with
    | text value =>
        have hvalue : node.value? = some value := by simpa [Feature.isAt] using h
        unfold value? at hvalue
        split at hvalue <;> cases hvalue <;> constructor
    | _ =>
        cases node with
        | lambda | composition => first | constructor | cases h
        | primitive p => cases p <;> cases h
        | operation o =>
            obtain ⟨operator, left, right, loc⟩ := o
            cases operator <;> first | exact .arithmetic rfl | cases h
        | pattern p => cases p <;> first | exact .wildcard | cases h
        | typeTerm t => cases t <;> cases h
        | _ => cases h
  · rintro (_ | h | _ | _ | _ | _ | _ | _) <;> simp [Feature.isAt, kind, value?, Pattern.kind]
    simp [h, Operator.kind]

theorem Is.shows {node : Node} (h : node.Is feature) : node.Shows feature := by
  cases h with
  | lambda => exact .lambda
  | arithmetic h => exact .arithmetic h
  | composition => exact .composition
  | wildcard => exact .wildcard
  | symbol => rfl
  | symbolLiteral => exact .symbol
  | string => exact .string
  | char => exact .char

theorem BodyChild.shows {body : ClauseBody} {i : Nat} {node : Node} (hchild : BodyChild body i node)
    (h : node.Shows feature) : body.Shows feature := by
  cases hchild with
  | unguarded => exact h
  | guarded hg => exact ⟨_, List.mem_of_getElem? hg, h⟩

theorem PatternChild.shows {p : Pattern} {i : Nat} {node : Node} (hchild : PatternChild p i node)
    (h : node.Shows feature) : p.Shows feature := by
  cases hchild with
  | literal => exact .literal h
  | var => cases h; exact .var
  | constructor hp => exact .constructor (List.mem_of_getElem? hp) h
  | list hp => exact .list (List.mem_of_getElem? hp) h
  | head => exact .head h
  | tail => exact .tail h
  | whole => exact .whole h
  | part => exact .aliased h
  | tuple hp => exact .tuple (List.mem_of_getElem? hp) h

/-- What a part of some code shows, the code shows. -/
theorem Shows.of_child {node child : Node} (h : child.Shows feature)
    (hmem : child ∈ node.children) (hcode : node.isCode = true) : node.Shows feature := by
  obtain ⟨i, hi⟩ := List.getElem?_of_mem hmem
  cases child_iff.mpr hi with
  | functionName => exact .inl h
  | functionClause hc => exact .inr ⟨_, List.mem_of_getElem? hc, h⟩
  | parameter hp => exact .inl ⟨_, List.mem_of_getElem? hp, h⟩
  | clauseBody hbody => exact .inr (.inl (hbody.shows h))
  | clauseResult hbody => exact .inr (.inr (hbody.shows h))
  | guardCondition => exact .inl h
  | guardBody => exact .inr (.inl h)
  | guardResult => exact .inr (.inr h)
  | form => exact shows_ofForm.mp h
  | listElement he => exact .element (List.mem_of_getElem? he) h
  | leftOperand => exact .left h
  | rightOperand => exact .right h
  | tupleElement he => exact .tuple (List.mem_of_getElem? he) h
  | condition => exact .condition h
  | yes => exact .yes h
  | no => exact .no h
  | head => exact .head h
  | tail => exact .tail h
  | dataName => cases h; exact .dataName
  | dataField hf => exact .dataField (List.mem_of_getElem? hf) h
  | fieldExpressionName => cases h; exact .name
  | fieldExpressionValue => exact .value h
  | compositionLeft => exact .composed h
  | compositionRight => exact .composedWith h
  | lambdaParameter hp => exact .parameter (List.mem_of_getElem? hp) h
  | lambdaBody => exact .body h
  | applicationFunction => exact .applied h
  | applicationArgument => exact .argument h
  | infixedOperator => cases h; exact .infixOperator
  | infixedLeft => exact .infixLeft h
  | infixedRight => exact .infixRight h
  | pattern hp => exact hp.shows h
  | _ => cases hcode

theorem exists_mem_ofClauseBody {body : ClauseBody} (h : body.Shows feature) :
    ∃ child ∈ ofClauseBody body, child.Shows feature := by
  cases body with
  | unguarded e => exact ⟨expression e, .head _, h⟩
  | guarded guards =>
      obtain ⟨g, hg, h⟩ := h
      exact ⟨guard g, List.mem_map_of_mem hg, h⟩

theorem is_or_mem_ofPattern {p : Pattern} (h : p.Shows feature) :
    (pattern p).Is feature ∨ ∃ child ∈ ofPattern p, child.Shows feature := by
  cases h with
  | wildcard => exact .inl .wildcard
  | literal h => exact .inr ⟨primitive _, .head _, h⟩
  | var => exact .inr ⟨symbol _, .head _, rfl⟩
  | constructor hp h | list hp h | tuple hp h =>
      exact .inr ⟨pattern _, List.mem_map_of_mem hp, h⟩
  | head h | whole h => exact .inr ⟨pattern _, .head _, h⟩
  | tail h | aliased h => exact .inr ⟨pattern _, .tail _ (.head _), h⟩

/-- Code that shows a feature is one or has a part that shows it. -/
theorem Shows.is_or_child {node : Node} (h : node.Shows feature) :
    node.Is feature ∨ ∃ child ∈ node.children, child.Shows feature := by
  cases node with
  | function g =>
      rcases h with rfl | ⟨c, hc, h⟩
      · exact .inr ⟨symbol g.name, .head _, rfl⟩
      · exact .inr ⟨clause c, .tail _ (List.mem_map_of_mem hc), h⟩
  | clause c =>
      rcases h with ⟨p, hp, h⟩ | h | h
      · exact .inr ⟨pattern p, by simp [children, hp], h⟩
      · obtain ⟨child, hmem, h⟩ := exists_mem_ofClauseBody h
        exact .inr ⟨child, by simp [children, hmem], h⟩
      · obtain ⟨child, hmem, h⟩ := exists_mem_ofClauseBody h
        exact .inr ⟨child, by simp [children, hmem], h⟩
  | guard g =>
      rcases h with h | h | h
      · exact .inr ⟨expression _, .head _, h⟩
      · exact .inr ⟨expression _, .tail _ (.head _), h⟩
      · exact .inr ⟨expression _, .tail _ (.tail _ (.head _)), h⟩
  | expression e => exact .inr ⟨ofForm e, .head _, shows_ofForm.mpr h⟩
  | primitive p =>
      cases h with
      | symbol => exact .inl .symbolLiteral
      | string => exact .inl .string
      | char => exact .inl .char
      | element he h => exact .inr ⟨expression _, List.mem_map_of_mem he, h⟩
  | operation o =>
      cases h with
      | arithmetic h => exact .inl (.arithmetic h)
      | left h => exact .inr ⟨expression _, .head _, h⟩
      | right h => exact .inr ⟨expression _, .tail _ (.head _), h⟩
  | tuple elements =>
      cases h with
      | tuple he h => exact .inr ⟨expression _, List.mem_map_of_mem he, h⟩
  | conditional condition yes no =>
      cases h with
      | condition h => exact .inr ⟨expression _, .head _, h⟩
      | yes h => exact .inr ⟨expression _, .tail _ (.head _), h⟩
      | no h => exact .inr ⟨expression _, .tail _ (.tail _ (.head _)), h⟩
  | cons head tail =>
      cases h with
      | head h => exact .inr ⟨expression _, .head _, h⟩
      | tail h => exact .inr ⟨expression _, .tail _ (.head _), h⟩
  | data name fields =>
      cases h with
      | dataName => exact .inr ⟨symbol name, .head _, rfl⟩
      | dataField hf h =>
          exact .inr ⟨fieldExpression _, .tail _ (List.mem_map_of_mem hf), h⟩
  | fieldExpression f =>
      cases h with
      | name => exact .inr ⟨symbol f.name, .head _, rfl⟩
      | value h => exact .inr ⟨expression _, .tail _ (.head _), h⟩
  | composition left right =>
      cases h with
      | composition => exact .inl .composition
      | composed h => exact .inr ⟨expression _, .head _, h⟩
      | composedWith h => exact .inr ⟨expression _, .tail _ (.head _), h⟩
  | lambda parameters body =>
      cases h with
      | lambda => exact .inl .lambda
      | parameter hp h => exact .inr ⟨pattern _, by simp [children, hp], h⟩
      | body h => exact .inr ⟨expression _, by simp [children], h⟩
  | application f argument =>
      cases h with
      | applied h => exact .inr ⟨expression _, .head _, h⟩
      | argument h => exact .inr ⟨expression _, .tail _ (.head _), h⟩
  | infixed operator left right =>
      cases h with
      | infixOperator => exact .inr ⟨symbol operator, .head _, rfl⟩
      | infixLeft h => exact .inr ⟨expression _, .tail _ (.head _), h⟩
      | infixRight h => exact .inr ⟨expression _, .tail _ (.tail _ (.head _)), h⟩
  | pattern p => exact is_or_mem_ofPattern h
  | symbol s => cases h; exact .inl .symbol
  | _ => exact h.elim

theorem isCode_of_mem_children {node child : Node} (hmem : child ∈ node.children)
    (hcode : node.isCode = true) : child.isCode = true := by
  obtain ⟨i, hi⟩ := List.getElem?_of_mem hmem
  have hbody : ∀ body i n, BodyChild body i n → n.isCode = true := by
    rintro _ _ _ (_ | _) <;> rfl
  cases child_iff.mpr hi with
  | clauseBody h | clauseResult h => exact hbody _ _ _ h
  | pattern h => cases h <;> rfl
  | @form e => cases e <;> rfl
  | _ => first | rfl | cases hcode

/-- Some node at or below a piece of code is a feature exactly if the code shows it. -/
theorem any_subtree_iff (node : Node) (hcode : node.isCode = true) :
    node.subtree.any feature.isAt = true ↔ node.Shows feature := by
  induction node using children_induction with
  | step node ih =>
      have hbelow : (∃ child ∈ node.children, child.subtree.any feature.isAt = true) ↔
          ∃ child ∈ node.children, child.Shows feature :=
        exists_congr fun child => and_congr_right fun hmem =>
          ih child hmem (isCode_of_mem_children hmem hcode)
      rw [subtree_eq, List.any_cons, Bool.or_eq_true, isAt_iff, List.any_flatMap, List.any_eq_true,
        hbelow]
      constructor
      · rintro (h | ⟨child, hmem, h⟩)
        · exact h.shows
        · exact h.of_child hmem hcode
      · exact Shows.is_or_child

end Node

end Rubric
