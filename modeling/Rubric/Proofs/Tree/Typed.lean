import Rubric.Proofs.Tree.Declarations

/-!
# The nodes that the checker types

The checker has a call for every expression, every literal and every pattern. A walk over a
tree meets these nodes in some order, and the expressions are a part of them.
-/

namespace Rubric

namespace Node

/-- Whether the checker has a call for a node. -/
def isTyped : Node → Bool
  | expression _ | primitive _ | pattern _ => true
  | _ => false

/-- The nodes at or below a node that the checker has calls for, in the order of a walk. -/
def typedNodes (node : Node) : List Node :=
  node.subtree.filter isTyped

def typedNodesOf (nodes : List Node) : List Node :=
  nodes.flatMap typedNodes

@[simp] theorem typedNodesOf_nil : typedNodesOf [] = [] := rfl

@[simp] theorem typedNodesOf_cons (node : Node) (nodes : List Node) :
    typedNodesOf (node :: nodes) = node.typedNodes ++ typedNodesOf nodes :=
  List.flatMap_cons

theorem typedNodesOf_singleton (node : Node) : typedNodesOf [node] = node.typedNodes := by
  simp

theorem typedNodesOf_append (nodes nodes' : List Node) :
    typedNodesOf (nodes ++ nodes') = typedNodesOf nodes ++ typedNodesOf nodes' :=
  List.flatMap_append

theorem typedNodes_of_typed {node : Node} (h : node.isTyped = true) :
    node.typedNodes = node :: typedNodesOf node.children := by
  unfold typedNodesOf typedNodes
  rw [subtree_eq, List.filter_cons_of_pos h, List.filter_flatMap]

theorem typedNodes_of_children {node : Node} (h : node.isTyped = false) {nodes : List Node}
    (hchildren : node.children = nodes) : node.typedNodes = typedNodesOf nodes := by
  unfold typedNodesOf typedNodes
  rw [subtree_eq, List.filter_cons_of_neg (by simp [h]), List.filter_flatMap, hchildren]

theorem typedNodes_expression (e : Expression) :
    (expression e).typedNodes = expression e :: (ofForm e).typedNodes := by
  rw [typedNodes_of_typed rfl, children, typedNodesOf_singleton]

theorem typedNodes_pair {node : Node} (h : node.isTyped = false) {left right : Node}
    (hchildren : node.children = [left, right]) :
    node.typedNodes = left.typedNodes ++ right.typedNodes := by
  rw [typedNodes_of_children h hchildren, typedNodesOf_cons, typedNodesOf_singleton]

@[simp] theorem typedNodes_symbol (s : Symbol) : (symbol s).typedNodes = [] :=
  typedNodes_of_children rfl rfl

theorem typedNodes_field (f : FieldExpression) :
    (fieldExpression f).typedNodes = (expression f.value).typedNodes := by
  rw [typedNodes_pair rfl rfl, typedNodes_symbol, List.nil_append]

/-! ## Expressions -/

/-- The expression at a node, if there is one. -/
def asExpression? : Node → Option Expression
  | expression e => some e
  | _ => none

/-- The expressions at or below a node, in the order of a walk. -/
def expressions (node : Node) : List Expression :=
  node.subtree.filterMap asExpression?

/-- The expressions in a row of nodes. -/
def expressionsOf (nodes : List Node) : List Expression :=
  nodes.flatMap expressions

/-- The expressions are among the typed nodes. -/
theorem filterMap_typedNodes (node : Node) :
    node.typedNodes.filterMap asExpression? = node.expressions := by
  unfold typedNodes expressions
  rw [List.filterMap_filter]
  congr 1
  funext other
  cases other <;> rfl

theorem filterMap_typedNodesOf (nodes : List Node) :
    (typedNodesOf nodes).filterMap asExpression? = expressionsOf nodes := by
  unfold typedNodesOf expressionsOf
  rw [List.filterMap_flatMap]
  exact List.flatMap_congr fun node _ => node.filterMap_typedNodes

end Node

namespace ClauseBody

/-- The expressions of a right-hand side that are typed. The bodies of guards are not. -/
def typed : ClauseBody → List Expression
  | unguarded e => [e]
  | guarded guards => guards.flatMap fun guard => [guard.condition, guard.result]

end ClauseBody

end Rubric
