import Rubric.Proofs.Checker.Clause
import Rubric.Proofs.Checker.Ledger
import Rubric.Proofs.Unification.Visits

/-!
# The points of a run

A point of a run shows everything that exists then: the aliases lowered so far, the session, the
types that the steps under way have in hand, and the diagnostics recorded so far. A watch lists the
points that a step comes to, in their order, and marks those at which the checker calls itself on
an expression, a literal or a pattern, or submits an equation. It follows the step part by part,
with the sessions that the parts leave, and each part ends at a point that has its answer in hand,
or its error.

The run on a program starts with lowering its aliases. Then the clauses of its functions are
checked one after the other. Each of these watches goes on from the last point of the one before.
The calls of a clause and the expressions that it asks for are read off its watch.
-/

namespace Rubric

/-! ## Points -/

/-- The types that come with an answer. -/
class Holds (α : Type) where
  types : α → List Ty

namespace Holds

instance : Holds Ty := ⟨fun t => [t]⟩

instance : Holds (List Ty) := ⟨fun ts => ts⟩

instance : Holds TypeVar := ⟨fun v => [.var v]⟩

instance : Holds (Table String TypeVar) := ⟨fun names => names.values.map .var⟩

instance : Holds Unit := ⟨fun _ => []⟩

instance : Holds ConstructorInfo := ⟨fun _ => []⟩

instance {α β : Type} [Holds α] [Holds β] : Holds (α × β) :=
  ⟨fun answer => types answer.1 ++ types answer.2⟩

end Holds

/-- Everything that exists at some time of a run. -/
structure Point where
  aliases : Aliases
  session : Session
  /-- The types that the steps under way have in hand. -/
  types : List Ty := []
  recorded : List Diagnostic := []

namespace Point

def holding (p : Point) (types : List Ty) : Point :=
  { p with types := types ++ p.types }

/-- The point at the start of a clause, without names in scope. -/
def opened (p : Point) : Point :=
  { p with session := { p.session with scopes := .empty } }

/-- The point when nothing is in hand any more. -/
def released (p : Point) : Point :=
  { p with types := [] }

/-- The point after a step that gives diagnostics. -/
def after (p : Point) (step : StateM Session (List Diagnostic)) : Point :=
  { p with session := (step.run p.session).2, recorded := p.recorded ++ (step.run p.session).1 }

/-- The point after a step of which the errors are recorded. -/
def reported (p : Point) (record : TypeError → Diagnostic)
    (step : StateM Session (List TypeError)) : Point :=
  p.after (List.map record <$> step)

/-- The point after a step of which the error is recorded, if there is one. -/
def concluded (p : Point) (record : TypeError → Diagnostic) (step : Check Unit) : Point :=
  p.reported record (Setting.failure step)

theorem after_nothing (p : Point) : p.after (pure []) = p := by
  unfold after
  rw [run_pure, List.append_nil]

/-- Diagnostics of one step after those of another. -/
theorem after_append (p : Point) (step next : StateM Session (List Diagnostic)) :
    p.after (do
      let errors ← step
      let others ← next
      pure (errors ++ others)) = (p.after step).after next := by
  unfold after
  rw [run_bind, run_bind, run_pure, List.append_assoc]

theorem reported_eq (p : Point) (record : TypeError → Diagnostic)
    (step : StateM Session (List TypeError)) :
    p.reported record step = ⟨p.aliases, (step.run p.session).2, p.types,
      p.recorded ++ (step.run p.session).1.map record⟩ :=
  rfl

theorem reported_append (p : Point) (record : TypeError → Diagnostic)
    (step next : StateM Session (List TypeError)) :
    p.reported record (do
      let errors ← step
      let others ← next
      pure (errors ++ others)) = (p.reported record step).reported record next := by
  rw [reported_eq, reported_eq, reported_eq, run_bind, run_bind, run_pure, List.map_append,
    List.append_assoc]

end Point

/-- What a run of the checker calls. -/
inductive Call where
  | expression (e : Expression)
  | primitive (p : Primitive)
  | pattern (p : Pattern) (expected : Ty)
  | equation (expected found : Ty)

namespace Call

/-- The types that a call is given. -/
def types : Call → List Ty
  | expression _ | primitive _ => []
  | pattern _ expected => [expected]
  | equation expected found => [expected, found]

/-- The node that a call is about. -/
def node? : Call → Option Node
  | expression e => some (.expression e)
  | primitive p => some (.primitive p)
  | pattern p _ => some (.pattern p)
  | equation _ _ => none

end Call

/-- A point of a run, and the call that starts there if there is one. -/
structure Mark where
  point : Point
  call : Option Call

/-- The marks of a step after the point that it starts from. -/
abbrev Watch := Point → List Mark

namespace Watch

def silent : Watch :=
  fun _ => []

/-- A single point. -/
def moving (move : Point → Point) : Watch :=
  fun p => [⟨move p, none⟩]

/-- A call and what happens inside it. -/
def within (call : Call) (inside : Watch) : Watch :=
  fun p => ⟨p.holding call.types, some call⟩ :: inside p

/-- The last point of a watch, or the one that it starts from. -/
def ending (watch : Watch) (p : Point) : Point :=
  ((watch p).map Mark.point).getLastD p

/-- The marks of a watch and then those of another that goes on from its last point. -/
def andThen (watch next : Watch) : Watch :=
  fun p => watch p ++ next (watch.ending p)

/-- The marks in a scope of their own. -/
def inNewScope (inside : Watch) : Watch := fun p =>
  let pushed := { p with session := { p.session with scopes := p.session.scopes.push } }
  ⟨pushed, none⟩ :: inside pushed

end Watch

namespace Check

open Watch

variable {α : Type} [Holds α]

/-- The point after a step, with its answer or its error in hand. -/
def arrived (step : Check α) (p : Point) : Point :=
  match runOn step p.session with
  | (.ok answer, after) => { p with session := after, types := Holds.types answer ++ p.types }
  | (.error error, after) => { p with session := after, types := error.types ++ p.types }

theorem aliases_arrived (step : Check α) (p : Point) : (step.arrived p).aliases = p.aliases := by
  unfold arrived
  split <;> rfl

theorem session_arrived (step : Check α) (p : Point) :
    (step.arrived p).session = (runOn step p.session).2 := by
  unfold arrived
  split <;> next hrun => rw [hrun]

theorem arrived_eq {step : Check α} {p : Point} {a : α} {after : Session}
    (h : step.Gives p.session a after) :
    step.arrived p = ⟨p.aliases, after, Holds.types a ++ p.types, p.recorded⟩ := by
  unfold arrived
  rw [show runOn step p.session = (.ok a, after) from h]

theorem arrived_error {step : Check α} {p : Point} {error : TypeError} {after : Session}
    (h : runOn step p.session = (.error error, after)) :
    step.arrived p = ⟨p.aliases, after, error.types ++ p.types, p.recorded⟩ := by
  unfold arrived
  rw [h]

/-- The points of a step, given by its own watch, and of what follows if it succeeds. -/
def watched (step : Check α) (inside : Watch) (next : α → Watch) : Watch := fun p =>
  inside p ++ ⟨step.arrived p, none⟩ ::
    step.upon p.session fun answer _ => next answer (step.arrived p)

/-- The points of a step and of what follows whether it succeeds or not. -/
def tried (record : TypeError → Diagnostic) (step : Check Unit) (inside next : Watch) : Watch :=
  fun p => inside p ++ ⟨step.arrived p, none⟩ :: ⟨p.concluded record step, none⟩ ::
    next (p.concluded record step)

/-- The points of a step and of what follows if it succeeds. Otherwise the error is recorded. -/
def required (record : TypeError → Diagnostic) (step : Check Unit) (inside next : Watch) :
    Watch := fun p =>
  inside p ++ ⟨step.arrived p, none⟩ :: ⟨p.concluded record step, none⟩ ::
    step.upon p.session fun _ _ => next (p.concluded record step)

def freshForWatch {β : Type} : List β → Watch
  | [] => silent
  | _ :: rest => fresh.watched silent fun _ => freshForWatch rest

end Check

open Check Watch

/-! ## Lowering -/

namespace TypeTerm

mutual

def lowerWatch : TypeTerm → Table String TypeVar → Watch
  | .constraint ⟨_, params⟩, names => lowerAllWatch params names
  | .qualified _ body, names => body.lowerWatch names
  | .arrow inputs output, names =>
      (lowering names (lowerAll inputs)).watched (lowerAllWatch inputs names) fun answer =>
        (lowering answer.2 output.lower).watched (output.lowerWatch answer.2) fun _ => silent
  | .apply base args, names =>
      (lowering names base.lower).watched (base.lowerWatch names) fun answer =>
        (lowering answer.2 (lowerAll args)).watched (lowerAllWatch args answer.2) fun _ => silent
  | .list element, names => element.lowerWatch names
  | .tuple elements, names => lowerAllWatch elements names
  | _, _ => silent

def lowerAllWatch : List TypeTerm → Table String TypeVar → Watch
  | [], _ => silent
  | term :: rest, names =>
      (lowering names term.lower).watched (term.lowerWatch names) fun answer =>
        (lowering answer.2 (lowerAll rest)).watched (lowerAllWatch rest answer.2) fun _ => silent

end

end TypeTerm

def Signature.lowerWatch (signature : Signature) : Watch :=
  (lowering {} (TypeTerm.lowerAll signature.inputs)).watched
    (TypeTerm.lowerAllWatch signature.inputs {}) fun answer =>
      (lowering answer.2 signature.output.lower).watched (signature.output.lowerWatch answer.2)
        fun _ => silent

/-- An alias is declared with the type that its term was lowered to. -/
def Point.declared (p : Point) (name : String) (t : Ty) : Point :=
  { p with aliases := p.aliases.insert name t, types := [] }

/-- The points of lowering aliases one after the other. -/
def Aliases.lowerWatch : List (String × TypeTerm) → Watch
  | [] => silent
  | (name, term) :: rest =>
      ((lowering {} term.lower).watched (term.lowerWatch {}) fun answer =>
        moving fun p => p.declared name answer.1).andThen (lowerWatch rest)

namespace Setting

variable (setting : Setting)

/-! ## Expressions and patterns -/

/-- The points of looking a name up that has this type in scope. -/
def foundWatch (name : String) (bound : Option Ty) : Watch :=
  match bound with
  | some _ => silent
  | none =>
      match setting.globals.signatures.get? name with
      | some signature => signature.lowerWatch
      | none =>
          match setting.globals.constructors.get? name with
          | some info => TypeTerm.lowerAllWatch (info.fields.map Field.value) {}
          | none =>
              match Prelude.builtin? name with
              | some scheme => freshForWatch (List.range scheme.arity)
              | none => silent

def lookupWatch (name : String) : Watch :=
  fun p => setting.foundWatch name (p.session.scopes.lookup name) p

/-- Unification leaves the session alone, so an equation is one point with all types that it works
with. -/
def equationWatch (expected found : Ty) : Watch := fun p =>
  [⟨p.holding ([expected, found] ++ p.session.equationTypes setting.aliases expected found),
    some (.equation expected found)⟩]

/-- The points of an equation and of what follows if it is accepted. -/
def equating (expected found : Ty) (next : Watch) : Watch :=
  (setting.constrain expected found).watched (setting.equationWatch expected found) fun _ => next

/-- The alias expansion of a type is looked at first. -/
def expanding (t : Ty) (next : Watch) : Watch :=
  fun p => ⟨p.holding [setting.aliases.expand t], none⟩ :: next p

def operandWatch (operand : Ty) : Watch :=
  (resolve operand).watched silent fun resolved => setting.expanding resolved silent

def operatedWatch (operator : Operator) (left right : Ty) : Watch :=
  match operator with
  | .logical _ => setting.equating .bool left (setting.equating .bool right silent)
  | .comparison _ => setting.equating left right silent
  | _ => setting.equating left right (setting.operandWatch left)

/-- The points of a literal without parts. -/
def literalWatch : Primitive → Watch
  | .number kind _ _ =>
      -- The variable is there before it is noted as a literal.
      if isGenericKind kind then freshVar.watched silent fun _ => silent else silent
  | .symbol symbol => setting.lookupWatch symbol.value
  | _ => silent

mutual

def expressionWatch : Expression → Watch
  | .primitive p => within (.expression (.primitive p)) (primitiveWatch p)
  | .operation o => within (.expression (.operation o)) (operationWatch o)
  | .tuple elements => within (.expression (.tuple elements)) (allWatch elements)
  | .conditional condition yes no =>
      within (.expression (.conditional condition yes no))
        ((setting.inferExpression condition).watched (expressionWatch condition)
          fun conditionType =>
            setting.equating .bool conditionType
              ((setting.inferExpression yes).watched (expressionWatch yes) fun yesType =>
                (setting.inferExpression no).watched (expressionWatch no) fun noType =>
                  setting.equating yesType noType silent))
  | .cons head tail =>
      within (.expression (.cons head tail))
        ((setting.inferExpression head).watched (expressionWatch head) fun headType =>
          (setting.inferExpression tail).watched (expressionWatch tail) fun tailType =>
            setting.equating (.list headType) tailType silent)
  | .data name fields =>
      within (.expression (.data name fields))
        (match setting.globals.constructors.get? name.value with
        | none => silent
        | some info =>
            if info.isPositional && info.fields.length != fields.length then silent
            else fieldWatch info fields 0 {})
  | .composition left right =>
      within (.expression (.composition left right))
        ((setting.inferExpression left).watched (expressionWatch left) fun leftType =>
          (setting.inferExpression right).watched (expressionWatch right) fun rightType =>
            fresh.watched silent fun a =>
              fresh.watched silent fun b =>
                fresh.watched silent fun c =>
                  setting.equating (.func b c) leftType
                    (setting.equating (.func a b) rightType silent))
  | .lambda parameters body =>
      within (.expression (.lambda parameters body))
        (inNewScope ((setting.bindParameters parameters).watched (parameterWatch parameters)
          fun _ => (setting.inferExpression body).watched (expressionWatch body) fun _ => silent))
  | .application f argument =>
      within (.expression (.application f argument))
        ((setting.inferExpression f).watched (expressionWatch f) fun functionType =>
          (setting.inferExpression argument).watched (expressionWatch argument)
            fun argumentType =>
              fresh.watched silent fun result =>
                setting.equating functionType (.func argumentType result) silent)
  | .infixed operator left right =>
      within (.expression (.infixed operator left right)) fun p =>
        (if operator.value = "++" && !setting.declares p.session.scopes operator.value then
          (setting.inferExpression left).watched (expressionWatch left) fun leftType =>
            (setting.inferExpression right).watched (expressionWatch right) fun rightType =>
              setting.equating leftType rightType (setting.operandWatch leftType)
        else
          (setting.lookup operator.value).watched (setting.lookupWatch operator.value)
            fun operatorType =>
              (setting.inferExpression left).watched (expressionWatch left) fun leftType =>
                (setting.inferExpression right).watched (expressionWatch right) fun rightType =>
                  fresh.watched silent fun result =>
                    setting.equating operatorType (.curried [leftType, rightType] result)
                      silent) p

def primitiveWatch : Primitive → Watch
  | .list elements loc =>
      within (.primitive (.list elements loc))
        (fresh.watched silent fun element => elementWatch element elements)
  | p => within (.primitive p) (setting.literalWatch p)

def operationWatch : Operation → Watch
  | ⟨operator, left, right, _⟩ =>
      (setting.inferExpression left).watched (expressionWatch left) fun leftType =>
        (setting.inferExpression right).watched (expressionWatch right) fun rightType =>
          setting.operatedWatch operator leftType rightType

def allWatch : List Expression → Watch
  | [] => silent
  | e :: rest => (setting.inferExpression e).watched (expressionWatch e) fun _ => allWatch rest

def elementWatch (element : Ty) : List Expression → Watch
  | [] => silent
  | e :: rest =>
      (setting.inferExpression e).watched (expressionWatch e) fun found =>
        setting.equating element found (elementWatch element rest)

def fieldWatch (info : ConstructorInfo) :
    List FieldExpression → Nat → Table String TypeVar → Watch
  | [], _, _ => silent
  | ⟨fieldName, value⟩ :: rest, position, names =>
      match info.fieldFor? position fieldName.value with
      | none => silent
      | some field =>
          (lowering names field.value.lower).watched (field.value.lowerWatch names) fun answer =>
            (setting.inferExpression value).watched (expressionWatch value) fun found =>
              setting.equating answer.1 found (fieldWatch info rest (position + 1) answer.2)

def patternWatch : Pattern → Ty → Watch
  | .wildcard, expected => within (.pattern .wildcard expected) silent
  | .literal p, expected =>
      within (.pattern (.literal p) expected)
        ((setting.inferPrimitive p).watched (primitiveWatch p) fun found =>
          setting.equating expected found silent)
  | .var symbol, expected => within (.pattern (.var symbol) expected) silent
  | .constructor name patterns, expected =>
      within (.pattern (.constructor name patterns) expected)
        (if (name = "True" || name = "False") && patterns.isEmpty then
          setting.equating expected .bool silent
        else
          (setting.constructorFor name patterns.length).watched silent fun info =>
            setting.equating expected (.con info.record)
              (fieldPatternWatch patterns info.fields {}))
  | .list elements, expected =>
      within (.pattern (.list elements) expected)
        (fresh.watched silent fun element =>
          setting.equating expected (.list element) (eachWatch elements element))
  | .cons head tail, expected =>
      within (.pattern (.cons head tail) expected)
        (fresh.watched silent fun element =>
          setting.equating expected (.list element)
            ((setting.bindPattern head element).watched (patternWatch head element) fun _ =>
              (setting.bindPattern tail (.list element)).watched
                (patternWatch tail (.list element)) fun _ => silent))
  | .as whole pattern, expected =>
      within (.pattern (.as whole pattern) expected)
        ((setting.bindPattern whole expected).watched (patternWatch whole expected) fun _ =>
          (setting.bindPattern pattern expected).watched (patternWatch pattern expected)
            fun _ => silent)
  | .tuple elements, expected =>
      within (.pattern (.tuple elements) expected)
        ((freshFor elements).watched (freshForWatch elements) fun types =>
          setting.equating expected (.tuple types) (rowWatch elements types))

def fieldPatternWatch : List Pattern → List Field → Table String TypeVar → Watch
  | pattern :: rest, field :: fields, names =>
      (lowering names field.value.lower).watched (field.value.lowerWatch names) fun answer =>
        (setting.bindPattern pattern answer.1).watched (patternWatch pattern answer.1) fun _ =>
          fieldPatternWatch rest fields answer.2
  | _, _, _ => silent

def eachWatch : List Pattern → Ty → Watch
  | [], _ => silent
  | pattern :: rest, expected =>
      (setting.bindPattern pattern expected).watched (patternWatch pattern expected) fun _ =>
        eachWatch rest expected

def rowWatch : List Pattern → List Ty → Watch
  | pattern :: rest, expected :: types =>
      (setting.bindPattern pattern expected).watched (patternWatch pattern expected) fun _ =>
        rowWatch rest types
  | _, _ => silent

def parameterWatch : List Pattern → Watch
  | [] => silent
  | pattern :: rest =>
      fresh.watched silent fun t =>
        (setting.bindPattern pattern t).watched (patternWatch pattern t) fun _ =>
          parameterWatch rest

end

/-! ## Clauses -/

def checkWatch (expected : Ty) (e : Expression) : Watch :=
  (setting.inferExpression e).watched (setting.expressionWatch e) fun found =>
    setting.equating expected found silent

def guardWatch (record : TypeError → Diagnostic) (expected : Ty) : List Guard → Watch
  | [] => silent
  | guard :: rest =>
      (setting.checkExpression "guard condition" .bool guard.condition).tried record
        (setting.checkWatch .bool guard.condition)
        ((setting.checkExpression "guard result" expected guard.result).tried record
          (setting.checkWatch expected guard.result) (guardWatch record expected rest))

def resultWatch (record : TypeError → Diagnostic) (expected : Ty) : ClauseBody → Watch
  | .unguarded e =>
      (setting.checkExpression "return value" expected e).tried record
        (setting.checkWatch expected e) silent
  | .guarded guards => setting.guardWatch record expected guards

/-- The points of a clause from its signature on. -/
def usedWatch (record : TypeError → Diagnostic) (clause : Clause) (inputs : List Ty)
    (output : Ty) : Watch :=
  let given := clause.parameters.length
  if inputs.length < given then
    moving fun p => { p with
      recorded := p.recorded ++ [record (.tooManyParameters inputs.length given)] }
  else
    (setting.bindAll clause.parameters inputs).required record
      (setting.rowWatch clause.parameters inputs)
      (setting.resultWatch record (.curried (inputs.drop given) output) clause.result)

/-- The points of a clause. An error is recorded at once. -/
def clauseWatch (record : TypeError → Diagnostic) (signature : Signature) (clause : Clause) :
    Watch :=
  (moving Point.opened).andThen
    ((lowering {} signature.lower).watched signature.lowerWatch fun answer =>
      setting.usedWatch record clause answer.1.1 answer.1.2)

theorem gives_signature {signature : Signature} {session : Session} {inputs : List Ty} {output : Ty}
    {naming : Naming}
    (hlower : signature.lower.run ⟨{}, session.next⟩ = ((inputs, output), naming)) :
    (lowering {} signature.lower).Gives session ((inputs, output), naming.names)
      { session with next := naming.next } := by
  refine gives_lowering.mpr ?_
  rw [hlower]
  exact ⟨rfl, rfl⟩

/-- A clause starts with its signature, and goes on from the types that this is lowered to. -/
theorem clauseWatch_eq (record : TypeError → Diagnostic) (clause : Clause) {signature : Signature}
    {p : Point} {inputs : List Ty} {output : Ty} {naming : Naming}
    (hlower : signature.lower.run ⟨{}, p.session.next⟩ = ((inputs, output), naming)) :
    setting.clauseWatch record signature clause p =
      ⟨p.opened, none⟩ :: (signature.lowerWatch p.opened ++
        ⟨(lowering {} signature.lower).arrived p.opened, none⟩ ::
          setting.usedWatch record clause inputs output
            ((lowering {} signature.lower).arrived p.opened)) := by
  have hgives : (lowering {} signature.lower).Gives p.opened.session _ _ := gives_signature hlower
  show ⟨p.opened, none⟩ :: Check.watched _ _ _ p.opened = _
  unfold watched
  rw [hgives.upon_eq]

def clausesWatch (group : FunctionGroup) (signature : Signature) : Nat → List Clause → Watch
  | _, [] => silent
  | number, clause :: rest =>
      (moving fun p => { p with session := p.session.reset }).andThen
        ((setting.clauseWatch (Diagnostic.mk group.name.value number group.name.loc) signature
          clause).andThen
            ((moving Point.released).andThen (clausesWatch group signature (number + 1) rest)))

def functionWatch (group : FunctionGroup) : Watch :=
  match setting.globals.signatures.get? group.name.value with
  | none => silent
  | some signature => setting.clausesWatch group signature 1 group.clauses

def functionsWatch : List FunctionGroup → Watch
  | [] => silent
  | group :: rest => (setting.functionWatch group).andThen (functionsWatch rest)

end Setting

namespace Program

/-- Nothing exists when a run starts. -/
def start : Point where
  aliases := .empty
  session := {}

/-- The marks of a run on a program. -/
def marks (program : Program) (orders : Orders := {}) : List Mark :=
  let globals := Globals.collect program
  ((Aliases.lowerWatch (globals.aliases.arranged orders.aliases)).andThen
    ((Setting.ofGlobals globals orders).1.functionsWatch
      ((Node.program program).subtree.filterMap Node.asFunction?))) start

/-- The points of a run on a program. -/
def points (program : Program) (orders : Orders := {}) : List Point :=
  start :: (program.marks orders).map Mark.point

end Program

/-! ## Where watches end -/

theorem getLastD_append {α : Type} (xs ys : List α) (a : α) :
    (xs ++ ys).getLastD a = ys.getLastD (xs.getLastD a) := by
  rw [List.getLastD_eq_getLast?, List.getLastD_eq_getLast?, List.getLastD_eq_getLast?,
    List.getLast?_append]
  cases ys.getLast? <;> rfl

theorem Watch.ending_andThen (watch next : Watch) (p : Point) :
    (watch.andThen next).ending p = next.ending (watch.ending p) := by
  unfold ending andThen
  rw [List.map_append, getLastD_append]
  rfl

theorem Check.ending_watched {α : Type} [Holds α] {step : Check α} {inside : Watch}
    {next : α → Watch} {p : Point} {a : α} {after : Session} (h : step.Gives p.session a after) :
    (step.watched inside next).ending p =
      (next a).ending ⟨p.aliases, after, Holds.types a ++ p.types, p.recorded⟩ := by
  unfold ending watched
  rw [List.map_append, getLastD_append, List.map_cons, List.getLastD_cons, h.upon_eq, arrived_eq h]

theorem Check.ending_tried {record : TypeError → Diagnostic} {step : Check Unit}
    {inside next : Watch} {p : Point} :
    (step.tried record inside next).ending p = next.ending (p.concluded record step) := by
  unfold ending tried
  rw [List.map_append, getLastD_append, List.map_cons, List.getLastD_cons, List.map_cons,
    List.getLastD_cons]

theorem Check.ending_required {record : TypeError → Diagnostic} {step : Check Unit}
    {inside next : Watch} {p : Point} :
    (step.required record inside next).ending p =
      ((step.upon p.session fun _ _ => next (p.concluded record step)).map Mark.point).getLastD
        (p.concluded record step) := by
  unfold ending required
  rw [List.map_append, getLastD_append, List.map_cons, List.getLastD_cons, List.map_cons,
    List.getLastD_cons]

/-! ## What is read off a watch -/

/-- The start of a call. -/
structure Moment where
  call : Call
  session : Session

/-- A question for the type of an expression. -/
structure Query where
  expression : Expression
  session : Session

namespace Moment

/-- The node that the call is about. -/
def node? (moment : Moment) : Option Node :=
  moment.call.node?

def query? (moment : Moment) : Option Query :=
  match moment.call with
  | .expression e => some ⟨e, moment.session⟩
  | _ => none

end Moment

namespace Mark

/-- The call that starts at a mark, if there is one. -/
def moment? (mark : Mark) : Option Moment :=
  mark.call.map fun call => ⟨call, mark.point.session⟩

/-- The calls in a list of marks. -/
def moments (marks : List Mark) : List Moment :=
  marks.filterMap moment?

@[simp] theorem moments_nil : moments [] = [] := rfl

@[simp] theorem moments_point (p : Point) (marks : List Mark) :
    moments (⟨p, none⟩ :: marks) = moments marks := rfl

@[simp] theorem moments_call (p : Point) (call : Call) (marks : List Mark) :
    moments (⟨p, some call⟩ :: marks) = ⟨call, p.session⟩ :: moments marks := rfl

@[simp] theorem moments_append (marks marks' : List Mark) :
    moments (marks ++ marks') = moments marks ++ moments marks' :=
  List.filterMap_append

end Mark

namespace Setting

open Check

variable (setting : Setting)

/-- A session with nothing in hand. -/
def pointAt (session : Session) : Point where
  aliases := setting.aliases
  session := session

/-- The session that a call leaves, whether it succeeds or not. -/
def outcome (moment : Moment) : Session :=
  match moment.call with
  | .expression e => (runOn (setting.inferExpression e) moment.session).2
  | .primitive p => (runOn (setting.inferPrimitive p) moment.session).2
  | .pattern p expected => (runOn (setting.bindPattern p expected) moment.session).2
  | .equation expected found => (runOn (setting.constrain expected found) moment.session).2

/-- The calls of a clause, in the order in which they start. -/
def clauseTrace (signature : Signature) (clause : Clause) (session : Session) : List Moment :=
  Mark.moments (setting.clauseWatch
    (Diagnostic.mk signature.name.value 1 signature.name.loc) signature clause
    (setting.pointAt session))

/-- The queries for the result of a clause, after its parameters were matched. -/
def clauseQueries (signature : Signature) (clause : Clause) (session : Session) : List Query :=
  let ((inputs, output), naming) := signature.lower.run { next := session.next }
  let expected : Ty := .curried (inputs.drop clause.parameters.length) output
  (setting.bindAll clause.parameters inputs).upon
    { session with scopes := .empty, next := naming.next } fun _ s =>
      (Mark.moments (setting.resultWatch
        (Diagnostic.mk signature.name.value 1 signature.name.loc) expected clause.result
        (setting.pointAt s))).filterMap Moment.query?

end Setting

end Rubric
