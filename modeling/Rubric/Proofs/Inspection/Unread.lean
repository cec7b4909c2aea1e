import Rubric.Proofs.Inspection.Features

/-!
# What inspections do not read

The names of constructor patterns, the descriptions of names, the attributes of clauses and the
kinds of numbers stand in the code of a function, but no node carries them as its text. `bare`
leaves them out. The tree below a bare function is the tree below the function with every node
made bare, and a node is a feature exactly if the bare node is.
-/

namespace Rubric

/-! ## Bare code -/

/-- A name without its description. -/
def Symbol.bare (name : Symbol) : Symbol :=
  { name with description := none }

mutual

def Expression.bare : Expression → Expression
  | .primitive p => .primitive p.bare
  | .operation o => .operation o.bare
  | .tuple elements => .tuple (Expression.bareAll elements)
  | .conditional condition yes no => .conditional condition.bare yes.bare no.bare
  | .cons head tail => .cons head.bare tail.bare
  | .data name fields => .data name.bare (FieldExpression.bareAll fields)
  | .composition left right => .composition left.bare right.bare
  | .lambda parameters body => .lambda (Pattern.bareAll parameters) body.bare
  | .application f argument => .application f.bare argument.bare
  | .infixed operator left right => .infixed operator.bare left.bare right.bare

def Expression.bareAll : List Expression → List Expression
  | [] => []
  | e :: rest => e.bare :: Expression.bareAll rest

def FieldExpression.bare : FieldExpression → FieldExpression
  | ⟨name, value⟩ => ⟨name.bare, value.bare⟩

def FieldExpression.bareAll : List FieldExpression → List FieldExpression
  | [] => []
  | field :: rest => field.bare :: FieldExpression.bareAll rest

/-- A literal in which no number tells its kind. -/
def Primitive.bare : Primitive → Primitive
  | .number _ value loc => .number "" value loc
  | .symbol name => .symbol name.bare
  | .list elements loc => .list (Expression.bareAll elements) loc
  | .boolean value loc => .boolean value loc
  | .char value loc => .char value loc
  | .string value loc => .string value loc
  | .null loc => .null loc
  | .undefined loc => .undefined loc

def Operation.bare : Operation → Operation
  | ⟨operator, left, right, loc⟩ => ⟨operator, left.bare, right.bare, loc⟩

/-- A pattern in which no constructor pattern has a name. -/
def Pattern.bare : Pattern → Pattern
  | .wildcard => .wildcard
  | .literal p => .literal p.bare
  | .var name => .var name.bare
  | .constructor _ patterns => .constructor "" (Pattern.bareAll patterns)
  | .list elements => .list (Pattern.bareAll elements)
  | .cons head tail => .cons head.bare tail.bare
  | .as whole p => .as whole.bare p.bare
  | .tuple elements => .tuple (Pattern.bareAll elements)

def Pattern.bareAll : List Pattern → List Pattern
  | [] => []
  | p :: rest => p.bare :: Pattern.bareAll rest

end

def Guard.bare (guard : Guard) : Guard :=
  ⟨guard.condition.bare, guard.body.bare, guard.result.bare⟩

def ClauseBody.bare : ClauseBody → ClauseBody
  | .unguarded e => .unguarded e.bare
  | .guarded guards => .guarded (guards.map Guard.bare)

/-- A clause without its attributes. -/
def Clause.bare (clause : Clause) : Clause :=
  { parameters := clause.parameters.map Pattern.bare, body := clause.body.bare,
    result := clause.result.bare }

/-- A function without the texts that inspections do not read. -/
def FunctionGroup.bare (group : FunctionGroup) : FunctionGroup :=
  ⟨group.name.bare, group.clauses.map Clause.bare⟩

/-- What goes through a list element by element is a `map`. -/
theorem eq_map_of_cons {α β : Type} {f : α → β} {each : List α → List β} (hnil : each [] = [])
    (hcons : ∀ x xs, each (x :: xs) = f x :: each xs) (xs : List α) : each xs = xs.map f := by
  induction xs with
  | nil => exact hnil
  | cons x xs ih => rw [hcons, ih, List.map_cons]

theorem Expression.bareAll_eq_map (es : List Expression) : bareAll es = es.map bare :=
  eq_map_of_cons rfl (fun _ _ => rfl) es

theorem FieldExpression.bareAll_eq_map (fs : List FieldExpression) : bareAll fs = fs.map bare :=
  eq_map_of_cons rfl (fun _ _ => rfl) fs

theorem Pattern.bareAll_eq_map (ps : List Pattern) : bareAll ps = ps.map bare :=
  eq_map_of_cons rfl (fun _ _ => rfl) ps

/-! ## Bare trees -/

namespace Node

/-- A node of code without the texts that inspections do not read. -/
def bare : Node → Node
  | function g => function g.bare
  | clause c => clause c.bare
  | guard g => guard g.bare
  | expression e => expression e.bare
  | primitive p => primitive p.bare
  | operation o => operation o.bare
  | tuple elements => tuple (elements.map Expression.bare)
  | conditional condition yes no => conditional condition.bare yes.bare no.bare
  | cons head tail => cons head.bare tail.bare
  | data name fields => data name.bare (fields.map FieldExpression.bare)
  | fieldExpression f => fieldExpression f.bare
  | composition left right => composition left.bare right.bare
  | lambda parameters body => lambda (parameters.map Pattern.bare) body.bare
  | application f argument => application f.bare argument.bare
  | infixed operator left right => infixed operator.bare left.bare right.bare
  | pattern p => pattern p.bare
  | symbol s => symbol s.bare
  | node => node

theorem ofForm_bare (e : Expression) : ofForm e.bare = (ofForm e).bare := by
  cases e <;>
    simp only [Expression.bare, ofForm, bare, Expression.bareAll_eq_map,
      FieldExpression.bareAll_eq_map, Pattern.bareAll_eq_map]

theorem ofClauseBody_bare (body : ClauseBody) :
    ofClauseBody body.bare = (ofClauseBody body).map bare := by
  cases body with
  | unguarded e => rfl
  | guarded guards => simp only [ClauseBody.bare, ofClauseBody, List.map_map]; rfl

theorem ofPattern_bare (p : Pattern) : ofPattern p.bare = (ofPattern p).map bare := by
  cases p <;>
    simp only [Pattern.bare, ofPattern, Pattern.bareAll_eq_map, List.map_map, List.map_cons,
      List.map_nil] <;>
    rfl

theorem children_bare (node : Node) (hcode : node.isCode = true) :
    node.bare.children = node.children.map bare := by
  cases node with
  | expression e => exact congrArg (fun form => [form]) (ofForm_bare e)
  | pattern p => exact ofPattern_bare p
  | clause c =>
      simp only [bare, Clause.bare, children, ofClauseBody_bare, List.map_append, List.map_map]
      rfl
  | primitive p =>
      cases p with
      | list elements loc =>
          simp only [bare, Primitive.bare, children, Expression.bareAll_eq_map, List.map_map]
          rfl
      | _ => rfl
  | operation o => cases o; rfl
  | fieldExpression f => cases f; rfl
  | function g | tuple elements | data name fields | lambda parameters body =>
      simp only [bare, FunctionGroup.bare, children, List.map_cons, List.map_append, List.map_map]
      rfl
  | _ => first | rfl | cases hcode

theorem isAt_bare (feature : Feature) (node : Node) :
    feature.isAt node.bare = feature.isAt node := by
  cases node with
  | primitive p => cases p <;> cases feature <;> rfl
  | pattern p => cases p <;> cases feature <;> rfl
  | operation o => cases o; cases feature <;> rfl
  | _ => cases feature <;> rfl

theorem subtree_bare (node : Node) (hcode : node.isCode = true) :
    node.bare.subtree = node.subtree.map bare := by
  induction node using children_induction with
  | step node ih =>
      rw [subtree_eq, subtree_eq node, children_bare node hcode, List.map_cons, List.map_flatMap,
        List.flatMap_map]
      exact congrArg _ (List.flatMap_congr fun child hmem =>
        ih child hmem (isCode_of_mem_children hmem hcode))

/-- Making code bare leaves its features. -/
theorem any_subtree_bare (feature : Feature) (node : Node) (hcode : node.isCode = true) :
    node.bare.subtree.any feature.isAt = node.subtree.any feature.isAt := by
  rw [subtree_bare node hcode, List.any_map]
  exact congrArg _ (funext (isAt_bare feature))

end Node

end Rubric
