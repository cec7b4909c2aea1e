import Rubric.Tree.Node

/-!
# Walking the tree

`Node.visits` lists a node and everything below it, each with its parent, parents before
children and children in the order of their fields. Inspections, the collection of
declarations and the type checker are all folds over this list.

`traverse` is the walk as a program runs it. At every node it calls the visitor's handler
for the shape of the node and then a wildcard that sees every node, and it hands the state
on from call to call. `walk` has handlers only and `walkAll` has the wildcard only. The
events of a walk are what a visitor and a wildcard write that log their calls.
-/

namespace Rubric

/-- A node reached by a walk, and the node it was reached from. -/
structure Visit where
  node : Node
  parent : Option Node

namespace Node

/-- Everything at or below a node, in the order in which a walk reaches it. -/
def visits (node : Node) (parent : Option Node) : List Visit :=
  ⟨node, parent⟩ :: node.children.attach.flatMap fun child =>
    child.val.visits (some node)
termination_by node.weight
decreasing_by exact weight_lt_of_mem_children child.property

/-- A walk reports the node and then walks its children with the node as parent. -/
theorem visits_eq (node : Node) (parent : Option Node) :
    node.visits parent =
      ⟨node, parent⟩ :: node.children.flatMap fun child => child.visits (some node) := by
  have below : forall (child : Node) (h : child ∈ node.children),
      (⟨child, h⟩ : { c // c ∈ node.children }).val.visits (some node) =
        (fun child : Node => child.visits (some node)) child := fun _ _ => rfl
  rw [visits, List.flatMap_subtype below, List.unattach_attach]

def subtree (node : Node) : List Node :=
  (node.visits none).map Visit.node

end Node

/-! ## Visitors -/

/-- The shapes of nodes. A visitor has one handler for each. -/
inductive Shape where
  | program | function | clause | guard | signature | typeAlias | record | constructor | field
  | constraint | expression | primitive | operation | tuple | conditional | cons | data
  | fieldExpression | composition | lambda | application | infixed | pattern | typeTerm
  | symbol
deriving DecidableEq, Repr

def Node.shape : Node → Shape
  | .program .. => .program
  | .function .. => .function
  | .clause .. => .clause
  | .guard .. => .guard
  | .signature .. => .signature
  | .typeAlias .. => .typeAlias
  | .record .. => .record
  | .constructor .. => .constructor
  | .field .. => .field
  | .constraint .. => .constraint
  | .expression .. => .expression
  | .primitive .. => .primitive
  | .operation .. => .operation
  | .tuple .. => .tuple
  | .conditional .. => .conditional
  | .cons .. => .cons
  | .data .. => .data
  | .fieldExpression .. => .fieldExpression
  | .composition .. => .composition
  | .lambda .. => .lambda
  | .application .. => .application
  | .infixed .. => .infixed
  | .pattern .. => .pattern
  | .typeTerm .. => .typeTerm
  | .symbol .. => .symbol

/-- Handlers for the shapes of nodes. Each is given the contents of the node, the parent and
the state so far. A handler that is left out does nothing. -/
structure Visitor (σ : Type) where
  program : Program → Option Node → σ → σ := fun _ _ state => state
  function : FunctionGroup → Option Node → σ → σ := fun _ _ state => state
  clause : Clause → Option Node → σ → σ := fun _ _ state => state
  guard : Guard → Option Node → σ → σ := fun _ _ state => state
  signature : Signature → Option Node → σ → σ := fun _ _ state => state
  typeAlias : TypeAlias → Option Node → σ → σ := fun _ _ state => state
  record : Record → Option Node → σ → σ := fun _ _ state => state
  constructor : Constructor → Option Node → σ → σ := fun _ _ state => state
  field : Field → Option Node → σ → σ := fun _ _ state => state
  constraint : Constraint → Option Node → σ → σ := fun _ _ state => state
  expression : Expression → Option Node → σ → σ := fun _ _ state => state
  primitive : Primitive → Option Node → σ → σ := fun _ _ state => state
  operation : Operation → Option Node → σ → σ := fun _ _ state => state
  tuple : List Expression → Option Node → σ → σ := fun _ _ state => state
  conditional : Expression → Expression → Expression → Option Node → σ → σ :=
    fun _ _ _ _ state => state
  cons : Expression → Expression → Option Node → σ → σ := fun _ _ _ state => state
  data : Symbol → List FieldExpression → Option Node → σ → σ := fun _ _ _ state => state
  fieldExpression : FieldExpression → Option Node → σ → σ := fun _ _ state => state
  composition : Expression → Expression → Option Node → σ → σ := fun _ _ _ state => state
  lambda : List Pattern → Expression → Option Node → σ → σ := fun _ _ _ state => state
  application : Expression → Expression → Option Node → σ → σ := fun _ _ _ state => state
  infixed : Symbol → Expression → Expression → Option Node → σ → σ :=
    fun _ _ _ _ state => state
  pattern : Pattern → Option Node → σ → σ := fun _ _ state => state
  typeTerm : TypeTerm → Option Node → σ → σ := fun _ _ state => state
  symbol : Symbol → Option Node → σ → σ := fun _ _ state => state

variable {σ : Type}

def Visitor.idle : Visitor σ := {}

def Visitor.handle (visitor : Visitor σ) (node : Node) (parent : Option Node) (state : σ) : σ :=
  match node with
  | .program p => visitor.program p parent state
  | .function g => visitor.function g parent state
  | .clause c => visitor.clause c parent state
  | .guard g => visitor.guard g parent state
  | .signature s => visitor.signature s parent state
  | .typeAlias a => visitor.typeAlias a parent state
  | .record r => visitor.record r parent state
  | .constructor c => visitor.constructor c parent state
  | .field f => visitor.field f parent state
  | .constraint c => visitor.constraint c parent state
  | .expression e => visitor.expression e parent state
  | .primitive p => visitor.primitive p parent state
  | .operation o => visitor.operation o parent state
  | .tuple elements => visitor.tuple elements parent state
  | .conditional condition yes no => visitor.conditional condition yes no parent state
  | .cons head tail => visitor.cons head tail parent state
  | .data name fields => visitor.data name fields parent state
  | .fieldExpression f => visitor.fieldExpression f parent state
  | .composition left right => visitor.composition left right parent state
  | .lambda parameters body => visitor.lambda parameters body parent state
  | .application f argument => visitor.application f argument parent state
  | .infixed operator left right => visitor.infixed operator left right parent state
  | .pattern p => visitor.pattern p parent state
  | .typeTerm t => visitor.typeTerm t parent state
  | .symbol s => visitor.symbol s parent state

/-- Walk a node and everything below it: the handler of the node, the wildcard, and then the
children from left to right with the node as their parent. -/
def traverse (visitor : Visitor σ) (wildcard : Node → Option Node → σ → σ) (node : Node)
    (parent : Option Node) (state : σ) : σ :=
  node.children.attach.foldl
    (fun state child => traverse visitor wildcard child.val (some node) state)
    (wildcard node parent (visitor.handle node parent state))
termination_by node.weight
decreasing_by exact Node.weight_lt_of_mem_children child.property

def walk (visitor : Visitor σ) (node : Node) (state : σ) : σ :=
  traverse visitor (fun _ _ state => state) node none state

def walkAll (wildcard : Node → Option Node → σ → σ) (node : Node) (state : σ) : σ :=
  traverse .idle wildcard node none state

/-! ## Events -/

/-- A call that a walk makes. -/
inductive Event where
  /-- The handler for a shape. -/
  | handled (shape : Shape) (visit : Visit)
  /-- The wildcard, which sees every node. -/
  | noticed (visit : Visit)

namespace Event

def logHandled (shape : Shape) (node : Node) (parent : Option Node) (log : Array Event) :
    Array Event :=
  log.push (handled shape ⟨node, parent⟩)

def logNoticed (node : Node) (parent : Option Node) (log : Array Event) : Array Event :=
  log.push (noticed ⟨node, parent⟩)

def logger : Visitor (Array Event) where
  program p := logHandled .program (.program p)
  function g := logHandled .function (.function g)
  clause c := logHandled .clause (.clause c)
  guard g := logHandled .guard (.guard g)
  signature s := logHandled .signature (.signature s)
  typeAlias a := logHandled .typeAlias (.typeAlias a)
  record r := logHandled .record (.record r)
  constructor c := logHandled .constructor (.constructor c)
  field f := logHandled .field (.field f)
  constraint c := logHandled .constraint (.constraint c)
  expression e := logHandled .expression (.expression e)
  primitive p := logHandled .primitive (.primitive p)
  operation o := logHandled .operation (.operation o)
  tuple elements := logHandled .tuple (.tuple elements)
  conditional condition yes no := logHandled .conditional (.conditional condition yes no)
  cons head tail := logHandled .cons (.cons head tail)
  data name fields := logHandled .data (.data name fields)
  fieldExpression f := logHandled .fieldExpression (.fieldExpression f)
  composition left right := logHandled .composition (.composition left right)
  lambda parameters body := logHandled .lambda (.lambda parameters body)
  application f argument := logHandled .application (.application f argument)
  infixed operator left right := logHandled .infixed (.infixed operator left right)
  pattern p := logHandled .pattern (.pattern p)
  typeTerm t := logHandled .typeTerm (.typeTerm t)
  symbol s := logHandled .symbol (.symbol s)

def both (node : Node) (parent : Option Node) : List Event :=
  (traverse logger logNoticed node parent #[]).toList

def handlers (node : Node) : List Event :=
  (walk logger node #[]).toList

def wildcards (node : Node) : List Event :=
  (walkAll logNoticed node #[]).toList

end Event

end Rubric
