import Mathlib.Algebra.Ring.Nat
import Mathlib.Data.List.Basic
import Rubric.Tree.Visit

/-!
# Positions below a node

`Node.Child node position child` says which node stands at which position directly below
another, with one rule for each field of each construct. Fields count in the order in which
the construct declares them, a field that holds a list takes one position for each element,
and an absent name takes none. `child_iff` compares the rules with `Node.children`.
-/

namespace Rubric

/-- How many positions a right-hand side takes. -/
def ClauseBody.width : ClauseBody → Nat
  | .unguarded _ => 1
  | .guarded guards => guards.length

namespace Node

/-- The positions of a right-hand side. -/
inductive BodyChild : ClauseBody → Nat → Node → Prop where
  | unguarded {e : Expression} : BodyChild (.unguarded e) 0 (expression e)
  | guarded {guards : List Guard} {i : Nat} {g : Guard} (h : guards[i]? = some g) :
      BodyChild (.guarded guards) i (guard g)

/-- The positions of a pattern. -/
inductive PatternChild : Pattern → Nat → Node → Prop where
  | literal {p : Primitive} : PatternChild (.literal p) 0 (primitive p)
  | var {s : Symbol} : PatternChild (.var s) 0 (symbol s)
  | constructor {name : String} {ps : List Pattern} {i : Nat} {p : Pattern}
      (h : ps[i]? = some p) : PatternChild (.constructor name ps) i (pattern p)
  | list {ps : List Pattern} {i : Nat} {p : Pattern} (h : ps[i]? = some p) :
      PatternChild (.list ps) i (pattern p)
  | head {a b : Pattern} : PatternChild (.cons a b) 0 (pattern a)
  | tail {a b : Pattern} : PatternChild (.cons a b) 1 (pattern b)
  | whole {a b : Pattern} : PatternChild (.as a b) 0 (pattern a)
  | part {a b : Pattern} : PatternChild (.as a b) 1 (pattern b)
  | tuple {ps : List Pattern} {i : Nat} {p : Pattern} (h : ps[i]? = some p) :
      PatternChild (.tuple ps) i (pattern p)

/-- The positions of a written type. The fields of an inline data type follow each other,
constructor after constructor. -/
inductive TypeChild : TypeTerm → Nat → Node → Prop where
  | param {c : Constraint} {i : Nat} {t : TypeTerm} (h : c.params[i]? = some t) :
      TypeChild (.constraint c) i (typeTerm t)
  | context {cs : List Constraint} {body : TypeTerm} {i : Nat} {c : Constraint}
      (h : cs[i]? = some c) : TypeChild (.qualified cs body) i (constraint c)
  | qualified {cs : List Constraint} {body : TypeTerm} :
      TypeChild (.qualified cs body) cs.length (typeTerm body)
  | input {inputs : List TypeTerm} {output : TypeTerm} {i : Nat} {t : TypeTerm}
      (h : inputs[i]? = some t) : TypeChild (.arrow inputs output) i (typeTerm t)
  | output {inputs : List TypeTerm} {output : TypeTerm} :
      TypeChild (.arrow inputs output) inputs.length (typeTerm output)
  | base {base : TypeTerm} {args : List TypeTerm} :
      TypeChild (.apply base args) 0 (typeTerm base)
  | argument {base : TypeTerm} {args : List TypeTerm} {i : Nat} {t : TypeTerm}
      (h : args[i]? = some t) : TypeChild (.apply base args) (i + 1) (typeTerm t)
  | list {element : TypeTerm} : TypeChild (.list element) 0 (typeTerm element)
  | tuple {elements : List TypeTerm} {i : Nat} {t : TypeTerm} (h : elements[i]? = some t) :
      TypeChild (.tuple elements) i (typeTerm t)
  | data {name : String} {before after : List DataCase} {case : DataCase} {i : Nat}
      {t : TypeTerm} (h : case.fields[i]? = some t) :
      TypeChild (.data name (before ++ case :: after))
        ((before.map fun earlier => earlier.fields.length).sum + i) (typeTerm t)
  | condition {a b c : TypeTerm} : TypeChild (.conditional a b c) 0 (typeTerm a)
  | yes {a b c : TypeTerm} : TypeChild (.conditional a b c) 1 (typeTerm b)
  | no {a b c : TypeTerm} : TypeChild (.conditional a b c) 2 (typeTerm c)

/-- The node that stands at a position directly below a node. -/
inductive Child : Node → Nat → Node → Prop where
  | declaration {p : Program} {i : Nat} {d : Declaration} (h : p.declarations[i]? = some d) :
      Child (program p) i (ofDeclaration d)
  | functionName {g : FunctionGroup} : Child (function g) 0 (symbol g.name)
  | functionClause {g : FunctionGroup} {i : Nat} {c : Clause} (h : g.clauses[i]? = some c) :
      Child (function g) (i + 1) (clause c)
  | parameter {c : Clause} {i : Nat} {p : Pattern} (h : c.parameters[i]? = some p) :
      Child (clause c) i (pattern p)
  | clauseBody {c : Clause} {i : Nat} {n : Node} (h : BodyChild c.body i n) :
      Child (clause c) (c.parameters.length + i) n
  | clauseResult {c : Clause} {i : Nat} {n : Node} (h : BodyChild c.result i n) :
      Child (clause c) (c.parameters.length + c.body.width + i) n
  | guardCondition {g : Guard} : Child (guard g) 0 (expression g.condition)
  | guardBody {g : Guard} : Child (guard g) 1 (expression g.body)
  | guardResult {g : Guard} : Child (guard g) 2 (expression g.result)
  | signatureName {s : Signature} : Child (signature s) 0 (symbol s.name)
  | signatureConstraint {s : Signature} {i : Nat} {c : Constraint}
      (h : s.constraints[i]? = some c) : Child (signature s) (i + 1) (constraint c)
  | signatureInput {s : Signature} {i : Nat} {t : TypeTerm} (h : s.inputs[i]? = some t) :
      Child (signature s) (s.constraints.length + i + 1) (typeTerm t)
  | signatureOutput {s : Signature} :
      Child (signature s) (s.constraints.length + s.inputs.length + 1) (typeTerm s.output)
  | aliasName {a : TypeAlias} : Child (typeAlias a) 0 (symbol a.name)
  | aliasValue {a : TypeAlias} : Child (typeAlias a) 1 (typeTerm a.value)
  | recordName {r : Record} : Child (record r) 0 (symbol r.name)
  | recordConstructor {r : Record} {i : Nat} {c : Constructor}
      (h : r.constructors[i]? = some c) : Child (record r) (i + 1) (constructor c)
  | constructorField {c : Constructor} {i : Nat} {f : Field} (h : c.fields[i]? = some f) :
      Child (constructor c) i (field f)
  | fieldName {s : Symbol} {t : TypeTerm} : Child (field ⟨some s, t⟩) 0 (symbol s)
  | namedFieldValue {s : Symbol} {t : TypeTerm} : Child (field ⟨some s, t⟩) 1 (typeTerm t)
  | bareFieldValue {t : TypeTerm} : Child (field ⟨none, t⟩) 0 (typeTerm t)
  | param {c : Constraint} {i : Nat} {t : TypeTerm} (h : c.params[i]? = some t) :
      Child (constraint c) i (typeTerm t)
  | form {e : Expression} : Child (expression e) 0 (ofForm e)
  | listElement {es : List Expression} {loc : Span} {i : Nat} {e : Expression}
      (h : es[i]? = some e) : Child (primitive (.list es loc)) i (expression e)
  | leftOperand {o : Operation} : Child (operation o) 0 (expression o.left)
  | rightOperand {o : Operation} : Child (operation o) 1 (expression o.right)
  | tupleElement {es : List Expression} {i : Nat} {e : Expression} (h : es[i]? = some e) :
      Child (tuple es) i (expression e)
  | condition {a b c : Expression} : Child (conditional a b c) 0 (expression a)
  | yes {a b c : Expression} : Child (conditional a b c) 1 (expression b)
  | no {a b c : Expression} : Child (conditional a b c) 2 (expression c)
  | head {a b : Expression} : Child (cons a b) 0 (expression a)
  | tail {a b : Expression} : Child (cons a b) 1 (expression b)
  | dataName {s : Symbol} {fs : List FieldExpression} : Child (data s fs) 0 (symbol s)
  | dataField {s : Symbol} {fs : List FieldExpression} {i : Nat} {f : FieldExpression}
      (h : fs[i]? = some f) : Child (data s fs) (i + 1) (fieldExpression f)
  | fieldExpressionName {f : FieldExpression} : Child (fieldExpression f) 0 (symbol f.name)
  | fieldExpressionValue {f : FieldExpression} :
      Child (fieldExpression f) 1 (expression f.value)
  | compositionLeft {a b : Expression} : Child (composition a b) 0 (expression a)
  | compositionRight {a b : Expression} : Child (composition a b) 1 (expression b)
  | lambdaParameter {ps : List Pattern} {body : Expression} {i : Nat} {p : Pattern}
      (h : ps[i]? = some p) : Child (lambda ps body) i (pattern p)
  | lambdaBody {ps : List Pattern} {body : Expression} :
      Child (lambda ps body) ps.length (expression body)
  | applicationFunction {f a : Expression} : Child (application f a) 0 (expression f)
  | applicationArgument {f a : Expression} : Child (application f a) 1 (expression a)
  | infixedOperator {s : Symbol} {a b : Expression} : Child (infixed s a b) 0 (symbol s)
  | infixedLeft {s : Symbol} {a b : Expression} : Child (infixed s a b) 1 (expression a)
  | infixedRight {s : Symbol} {a b : Expression} : Child (infixed s a b) 2 (expression b)
  | pattern {p : Pattern} {i : Nat} {n : Node} (h : PatternChild p i n) :
      Child (pattern p) i n
  | typeTerm {t : TypeTerm} {i : Nat} {n : Node} (h : TypeChild t i n) :
      Child (typeTerm t) i n

/-! ## Positions in a row of nodes -/

theorem getElem?_cons_eq_some {α : Type} {x y : α} {xs : List α} {i : Nat} :
    (x :: xs)[i]? = some y ↔ (i = 0 ∧ x = y) ∨ ∃ j, i = j + 1 ∧ xs[j]? = some y := by
  cases i <;> simp

theorem getElem?_singleton_eq_some {α : Type} {x y : α} {i : Nat} :
    [x][i]? = some y ↔ i = 0 ∧ x = y := by
  simp [getElem?_cons_eq_some]

theorem getElem?_pair_eq_some {α : Type} {x y z : α} {i : Nat} :
    [x, y][i]? = some z ↔ (i = 0 ∧ x = z) ∨ (i = 1 ∧ y = z) := by
  simp [getElem?_cons_eq_some]

theorem getElem?_append_eq_some {α : Type} {xs ys : List α} {y : α} {i : Nat} :
    (xs ++ ys)[i]? = some y ↔
      xs[i]? = some y ∨ ∃ j, i = xs.length + j ∧ ys[j]? = some y := by
  by_cases h : i < xs.length
  · rw [List.getElem?_append_left h]
    constructor
    · exact .inl
    · rintro (hy | ⟨j, hj, -⟩)
      · exact hy
      · omega
  · have hnone : xs[i]? = none := List.getElem?_eq_none (by omega)
    rw [List.getElem?_append_right (by omega)]
    constructor
    · intro hy
      exact .inr ⟨i - xs.length, by omega, hy⟩
    · rintro (hy | ⟨j, rfl, hy⟩)
      · rw [hnone] at hy
        cases hy
      · rwa [Nat.add_sub_cancel_left]

theorem getElem?_map_eq_some {α β : Type} {f : α → β} {xs : List α} {y : β} {i : Nat} :
    (xs.map f)[i]? = some y ↔ ∃ x, xs[i]? = some x ∧ f x = y := by
  rw [List.getElem?_map, Option.map_eq_some_iff]

/-- An element of the fields of all constructors belongs to one constructor, after the
fields of the constructors before it. -/
theorem getElem?_flatMap_fields {cases : List DataCase} {i : Nat} {t : TypeTerm} :
    (cases.flatMap DataCase.fields)[i]? = some t ↔
      ∃ before case after j, cases = before ++ case :: after ∧ case.fields[j]? = some t ∧
        i = (before.map fun earlier => earlier.fields.length).sum + j := by
  induction cases generalizing i with
  | nil => simp
  | cons first rest ih =>
      rw [List.flatMap_cons, getElem?_append_eq_some]
      constructor
      · rintro (h | ⟨j, rfl, h⟩)
        · exact ⟨[], first, rest, i, rfl, h, by simp⟩
        · obtain ⟨before, case, after, k, rfl, hk, rfl⟩ := ih.1 h
          exact ⟨first :: before, case, after, k, rfl, hk, by simp [Nat.add_assoc]⟩
      · rintro ⟨before, case, after, j, hcases, hj, rfl⟩
        cases before with
        | nil =>
            obtain ⟨rfl, rfl⟩ := List.cons.inj hcases
            exact .inl (by simpa using hj)
        | cons earlier before =>
            obtain ⟨rfl, rfl⟩ := List.cons.inj hcases
            refine .inr ⟨_, ?_, ih.2 ⟨before, case, after, j, rfl, hj, rfl⟩⟩
            simp [Nat.add_assoc]

/-! ## The rules list the children -/

theorem length_ofClauseBody (body : ClauseBody) : (ofClauseBody body).length = body.width := by
  cases body <;> simp [ofClauseBody, ClauseBody.width]

theorem bodyChild_iff {body : ClauseBody} {i : Nat} {n : Node} :
    BodyChild body i n ↔ (ofClauseBody body)[i]? = some n := by
  constructor
  · rintro (_ | h)
    · rfl
    · exact getElem?_map_eq_some.2 ⟨_, h, rfl⟩
  · intro h
    cases body with
    | unguarded e =>
        obtain ⟨rfl, rfl⟩ := getElem?_singleton_eq_some.1 h
        exact .unguarded
    | guarded guards =>
        obtain ⟨g, hg, rfl⟩ := getElem?_map_eq_some.1 h
        exact .guarded hg

theorem patternChild_iff {p : Pattern} {i : Nat} {n : Node} :
    PatternChild p i n ↔ (ofPattern p)[i]? = some n := by
  constructor
  · intro h
    cases h with
    | literal | var | head | tail | whole | part => rfl
    | constructor h | list h | tuple h => exact getElem?_map_eq_some.2 ⟨_, h, rfl⟩
  · intro h
    cases p with
    | wildcard => cases h
    | literal p =>
        obtain ⟨rfl, rfl⟩ := getElem?_singleton_eq_some.1 h
        exact .literal
    | var s =>
        obtain ⟨rfl, rfl⟩ := getElem?_singleton_eq_some.1 h
        exact .var
    | constructor name ps =>
        obtain ⟨p, hp, rfl⟩ := getElem?_map_eq_some.1 h
        exact .constructor hp
    | list ps =>
        obtain ⟨p, hp, rfl⟩ := getElem?_map_eq_some.1 h
        exact .list hp
    | cons a b =>
        obtain ⟨rfl, rfl⟩ | ⟨rfl, rfl⟩ := getElem?_pair_eq_some.1 h
        · exact .head
        · exact .tail
    | as a b =>
        obtain ⟨rfl, rfl⟩ | ⟨rfl, rfl⟩ := getElem?_pair_eq_some.1 h
        · exact .whole
        · exact .part
    | tuple ps =>
        obtain ⟨p, hp, rfl⟩ := getElem?_map_eq_some.1 h
        exact .tuple hp

theorem typeChild_iff {t : TypeTerm} {i : Nat} {n : Node} :
    TypeChild t i n ↔ (ofTypeTerm t)[i]? = some n := by
  constructor
  · intro h
    cases h with
    | base | list | condition | yes | no => rfl
    | param h | tuple h | argument h => exact getElem?_map_eq_some.2 ⟨_, h, rfl⟩
    | context h | input h =>
        exact getElem?_append_eq_some.2 (.inl (getElem?_map_eq_some.2 ⟨_, h, rfl⟩))
    | qualified | output =>
        exact getElem?_append_eq_some.2 (.inr ⟨0, by simp, rfl⟩)
    | data h =>
        exact getElem?_map_eq_some.2
          ⟨_, getElem?_flatMap_fields.2 ⟨_, _, _, _, rfl, h, rfl⟩, rfl⟩
  · intro h
    cases t with
    | var _ | con _ => cases h
    | constraint c =>
        obtain ⟨t, ht, rfl⟩ := getElem?_map_eq_some.1 h
        exact .param ht
    | qualified context body =>
        obtain hj | ⟨j, rfl, hj⟩ := getElem?_append_eq_some.1 h
        · obtain ⟨c, hc, rfl⟩ := getElem?_map_eq_some.1 hj
          exact .context hc
        · obtain ⟨rfl, rfl⟩ := getElem?_singleton_eq_some.1 hj
          rw [List.length_map]
          exact .qualified
    | arrow inputs output =>
        obtain hj | ⟨j, rfl, hj⟩ := getElem?_append_eq_some.1 h
        · obtain ⟨t, ht, rfl⟩ := getElem?_map_eq_some.1 hj
          exact .input ht
        · obtain ⟨rfl, rfl⟩ := getElem?_singleton_eq_some.1 hj
          rw [List.length_map]
          exact .output
    | apply base args =>
        obtain ⟨rfl, rfl⟩ | ⟨j, rfl, hj⟩ := getElem?_cons_eq_some.1 h
        · exact .base
        · obtain ⟨t, ht, rfl⟩ := getElem?_map_eq_some.1 hj
          exact .argument ht
    | list element =>
        obtain ⟨rfl, rfl⟩ := getElem?_singleton_eq_some.1 h
        exact .list
    | tuple elements =>
        obtain ⟨t, ht, rfl⟩ := getElem?_map_eq_some.1 h
        exact .tuple ht
    | data name cases =>
        obtain ⟨t, ht, rfl⟩ := getElem?_map_eq_some.1 h
        obtain ⟨before, case, after, j, rfl, hj, rfl⟩ := getElem?_flatMap_fields.1 ht
        exact .data hj
    | conditional a b c =>
        obtain ⟨rfl, rfl⟩ | ⟨j, rfl, hj⟩ := getElem?_cons_eq_some.1 h
        · exact .condition
        · obtain ⟨rfl, rfl⟩ | ⟨rfl, rfl⟩ := getElem?_pair_eq_some.1 hj
          · exact .yes
          · exact .no

/-- The rules place the children of a node from left to right, without a gap. -/
theorem child_iff {node : Node} {i : Nat} {n : Node} :
    Child node i n ↔ node.children[i]? = some n := by
  constructor
  · intro h
    cases h with
    | functionName | guardCondition | guardBody | guardResult | signatureName | aliasName
    | aliasValue | recordName | fieldName | namedFieldValue | bareFieldValue | form
    | leftOperand | rightOperand | condition | yes | no | head | tail | dataName
    | fieldExpressionName | fieldExpressionValue | compositionLeft | compositionRight
    | applicationFunction | applicationArgument | infixedOperator | infixedLeft
    | infixedRight => rfl
    | declaration h | functionClause h | recordConstructor h | constructorField h | param h
    | listElement h | tupleElement h | dataField h =>
        exact getElem?_map_eq_some.2 ⟨_, h, rfl⟩
    | parameter h =>
        exact getElem?_append_eq_some.2 (.inl (getElem?_append_eq_some.2
          (.inl (getElem?_map_eq_some.2 ⟨_, h, rfl⟩))))
    | clauseBody h =>
        exact getElem?_append_eq_some.2 (.inl (getElem?_append_eq_some.2
          (.inr ⟨_, by simp, bodyChild_iff.1 h⟩)))
    | clauseResult h =>
        exact getElem?_append_eq_some.2
          (.inr ⟨_, by simp [length_ofClauseBody], bodyChild_iff.1 h⟩)
    | signatureConstraint h =>
        exact getElem?_append_eq_some.2 (.inl (getElem?_append_eq_some.2
          (.inl (getElem?_map_eq_some.2 ⟨_, h, rfl⟩))))
    | signatureInput h =>
        exact getElem?_append_eq_some.2 (.inl (getElem?_append_eq_some.2
          (.inr ⟨_, by simp, getElem?_map_eq_some.2 ⟨_, h, rfl⟩⟩)))
    | signatureOutput => exact getElem?_append_eq_some.2 (.inr ⟨0, by simp, rfl⟩)
    | lambdaParameter h =>
        exact getElem?_append_eq_some.2 (.inl (getElem?_map_eq_some.2 ⟨_, h, rfl⟩))
    | lambdaBody => exact getElem?_append_eq_some.2 (.inr ⟨0, by simp, rfl⟩)
    | pattern h => exact patternChild_iff.1 h
    | typeTerm h => exact typeChild_iff.1 h
  · intro h
    cases node with
    | program p =>
        obtain ⟨d, hd, rfl⟩ := getElem?_map_eq_some.1 h
        exact .declaration hd
    | function g =>
        obtain ⟨rfl, rfl⟩ | ⟨j, rfl, hj⟩ := getElem?_cons_eq_some.1 h
        · exact .functionName
        · obtain ⟨c, hc, rfl⟩ := getElem?_map_eq_some.1 hj
          exact .functionClause hc
    | clause c =>
        obtain hj | ⟨j, rfl, hj⟩ := getElem?_append_eq_some.1 h
        · obtain hk | ⟨k, rfl, hk⟩ := getElem?_append_eq_some.1 hj
          · obtain ⟨p, hp, rfl⟩ := getElem?_map_eq_some.1 hk
            exact .parameter hp
          · rw [List.length_map]
            exact .clauseBody (bodyChild_iff.2 hk)
        · rw [List.length_append, List.length_map, length_ofClauseBody]
          exact .clauseResult (bodyChild_iff.2 hj)
    | guard g =>
        obtain ⟨rfl, rfl⟩ | ⟨j, rfl, hj⟩ := getElem?_cons_eq_some.1 h
        · exact .guardCondition
        · obtain ⟨rfl, rfl⟩ | ⟨rfl, rfl⟩ := getElem?_pair_eq_some.1 hj
          · exact .guardBody
          · exact .guardResult
    | signature s =>
        obtain ⟨rfl, rfl⟩ | ⟨j, rfl, hj⟩ := getElem?_cons_eq_some.1 h
        · exact .signatureName
        · obtain hk | ⟨k, rfl, hk⟩ := getElem?_append_eq_some.1 hj
          · obtain hl | ⟨l, rfl, hl⟩ := getElem?_append_eq_some.1 hk
            · obtain ⟨c, hc, rfl⟩ := getElem?_map_eq_some.1 hl
              exact .signatureConstraint hc
            · obtain ⟨t, ht, rfl⟩ := getElem?_map_eq_some.1 hl
              rw [List.length_map]
              exact .signatureInput ht
          · obtain ⟨rfl, rfl⟩ := getElem?_singleton_eq_some.1 hk
            rw [List.length_append, List.length_map, List.length_map]
            exact .signatureOutput
    | typeAlias a =>
        obtain ⟨rfl, rfl⟩ | ⟨rfl, rfl⟩ := getElem?_pair_eq_some.1 h
        · exact .aliasName
        · exact .aliasValue
    | record r =>
        obtain ⟨rfl, rfl⟩ | ⟨j, rfl, hj⟩ := getElem?_cons_eq_some.1 h
        · exact .recordName
        · obtain ⟨c, hc, rfl⟩ := getElem?_map_eq_some.1 hj
          exact .recordConstructor hc
    | constructor c =>
        obtain ⟨f, hf, rfl⟩ := getElem?_map_eq_some.1 h
        exact .constructorField hf
    | field f =>
        obtain ⟨_ | name, value⟩ := f
        · obtain ⟨rfl, rfl⟩ := getElem?_singleton_eq_some.1 h
          exact .bareFieldValue
        · obtain ⟨rfl, rfl⟩ | ⟨rfl, rfl⟩ := getElem?_pair_eq_some.1 h
          · exact .fieldName
          · exact .namedFieldValue
    | constraint c =>
        obtain ⟨t, ht, rfl⟩ := getElem?_map_eq_some.1 h
        exact .param ht
    | expression e =>
        obtain ⟨rfl, rfl⟩ := getElem?_singleton_eq_some.1 h
        exact .form
    | primitive p =>
        cases p with
        | list es loc =>
            obtain ⟨e, he, rfl⟩ := getElem?_map_eq_some.1 h
            exact .listElement he
        | _ => cases h
    | operation o =>
        obtain ⟨rfl, rfl⟩ | ⟨rfl, rfl⟩ := getElem?_pair_eq_some.1 h
        · exact .leftOperand
        · exact .rightOperand
    | tuple es =>
        obtain ⟨e, he, rfl⟩ := getElem?_map_eq_some.1 h
        exact .tupleElement he
    | conditional a b c =>
        obtain ⟨rfl, rfl⟩ | ⟨j, rfl, hj⟩ := getElem?_cons_eq_some.1 h
        · exact .condition
        · obtain ⟨rfl, rfl⟩ | ⟨rfl, rfl⟩ := getElem?_pair_eq_some.1 hj
          · exact .yes
          · exact .no
    | cons a b =>
        obtain ⟨rfl, rfl⟩ | ⟨rfl, rfl⟩ := getElem?_pair_eq_some.1 h
        · exact .head
        · exact .tail
    | data name fields =>
        obtain ⟨rfl, rfl⟩ | ⟨j, rfl, hj⟩ := getElem?_cons_eq_some.1 h
        · exact .dataName
        · obtain ⟨f, hf, rfl⟩ := getElem?_map_eq_some.1 hj
          exact .dataField hf
    | fieldExpression f =>
        obtain ⟨rfl, rfl⟩ | ⟨rfl, rfl⟩ := getElem?_pair_eq_some.1 h
        · exact .fieldExpressionName
        · exact .fieldExpressionValue
    | composition a b =>
        obtain ⟨rfl, rfl⟩ | ⟨rfl, rfl⟩ := getElem?_pair_eq_some.1 h
        · exact .compositionLeft
        · exact .compositionRight
    | lambda ps body =>
        obtain hj | ⟨j, rfl, hj⟩ := getElem?_append_eq_some.1 h
        · obtain ⟨p, hp, rfl⟩ := getElem?_map_eq_some.1 hj
          exact .lambdaParameter hp
        · obtain ⟨rfl, rfl⟩ := getElem?_singleton_eq_some.1 hj
          rw [List.length_map]
          exact .lambdaBody
    | application f a =>
        obtain ⟨rfl, rfl⟩ | ⟨rfl, rfl⟩ := getElem?_pair_eq_some.1 h
        · exact .applicationFunction
        · exact .applicationArgument
    | infixed s a b =>
        obtain ⟨rfl, rfl⟩ | ⟨j, rfl, hj⟩ := getElem?_cons_eq_some.1 h
        · exact .infixedOperator
        · obtain ⟨rfl, rfl⟩ | ⟨rfl, rfl⟩ := getElem?_pair_eq_some.1 hj
          · exact .infixedLeft
          · exact .infixedRight
    | pattern p => exact .pattern (patternChild_iff.2 h)
    | typeTerm t => exact .typeTerm (typeChild_iff.2 h)
    | symbol s => cases h

end Node

end Rubric
