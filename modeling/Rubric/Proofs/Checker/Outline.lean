import Rubric.Proofs.Tree.Declarations
import Rubric.Proofs.Types.Renaming

/-!
# What diagnostics depend on

The outline of a program keeps what types are made of, and the place of each function name,
which diagnostics show. Bodies, attributes, descriptions, all other places, the values of
literals, class contexts, the cases of inline data types and the parts of conditional types
are replaced by fixed ones. Every step of the checker is the same step on the outline: not
only its answer but also the variable numbers it uses up.
-/

namespace Rubric

/-! ## Outlines -/

namespace Symbol

/-- The text of a symbol. -/
def outline (symbol : Symbol) : Symbol :=
  { value := symbol.value }

end Symbol

namespace TypeTerm

mutual

/-- A written type without class contexts, data cases and the parts of conditionals. -/
def outline : TypeTerm → TypeTerm
  | var name => var name
  | con name => con name
  | constraint ⟨className, params⟩ => constraint ⟨className, outlineAll params⟩
  | qualified _ body => qualified [] body.outline
  | arrow inputs output => arrow (outlineAll inputs) output.outline
  | apply base args => apply base.outline (outlineAll args)
  | list element => list element.outline
  | tuple elements => tuple (outlineAll elements)
  | data name _ => data name []
  | conditional _ _ _ => conditional (tuple []) (tuple []) (tuple [])

def outlineAll : List TypeTerm → List TypeTerm
  | [] => []
  | term :: rest => term.outline :: outlineAll rest

end

end TypeTerm

mutual

/-- An expression without places, descriptions and the values of literals. -/
def Expression.outline : Expression → Expression
  | .primitive p => .primitive p.outline
  | .operation o => .operation o.outline
  | .tuple elements => .tuple (Expression.outlineAll elements)
  | .conditional condition yes no => .conditional condition.outline yes.outline no.outline
  | .cons head tail => .cons head.outline tail.outline
  | .data name fields => .data name.outline (FieldExpression.outlineAll fields)
  | .composition left right => .composition left.outline right.outline
  | .lambda parameters body => .lambda (Pattern.outlineAll parameters) body.outline
  | .application f argument => .application f.outline argument.outline
  | .infixed operator left right => .infixed operator.outline left.outline right.outline

def Expression.outlineAll : List Expression → List Expression
  | [] => []
  | e :: rest => e.outline :: Expression.outlineAll rest

def FieldExpression.outlineAll : List FieldExpression → List FieldExpression
  | [] => []
  | ⟨name, value⟩ :: rest => ⟨name.outline, value.outline⟩ :: FieldExpression.outlineAll rest

/-- A literal of which the kind and, for a list, the elements are left. -/
def Primitive.outline : Primitive → Primitive
  | .number kind _ _ => .number kind 0 {}
  | .boolean _ _ => .boolean false {}
  | .char _ _ => .char "" {}
  | .string _ _ => .string "" {}
  | .null _ => .null {}
  | .undefined _ => .undefined {}
  | .symbol name => .symbol name.outline
  | .list elements _ => .list (Expression.outlineAll elements) {}

def Operation.outline : Operation → Operation
  | ⟨operator, left, right, _⟩ => ⟨operator, left.outline, right.outline, {}⟩

/-- A pattern without places, descriptions and the values of literals. -/
def Pattern.outline : Pattern → Pattern
  | .wildcard => .wildcard
  | .literal p => .literal p.outline
  | .var name => .var name.outline
  | .constructor name patterns => .constructor name (Pattern.outlineAll patterns)
  | .list elements => .list (Pattern.outlineAll elements)
  | .cons head tail => .cons head.outline tail.outline
  | .as whole pattern => .as whole.outline pattern.outline
  | .tuple elements => .tuple (Pattern.outlineAll elements)

def Pattern.outlineAll : List Pattern → List Pattern
  | [] => []
  | pattern :: rest => pattern.outline :: Pattern.outlineAll rest

end

namespace Guard

/-- A guard without its body. -/
def outline (guard : Guard) : Guard :=
  ⟨guard.condition.outline, default, guard.result.outline⟩

end Guard

namespace ClauseBody

def outline : ClauseBody → ClauseBody
  | unguarded e => unguarded e.outline
  | guarded guards => guarded (guards.map Guard.outline)

end ClauseBody

namespace Clause

/-- A clause without its body and its attributes. -/
def outline (clause : Clause) : Clause :=
  ⟨Pattern.outlineAll clause.parameters, .guarded [], clause.result.outline, []⟩

end Clause

namespace FunctionGroup

/-- A function whose name keeps its place, since diagnostics show it. -/
def outline (group : FunctionGroup) : FunctionGroup :=
  ⟨{ value := group.name.value, loc := group.name.loc }, group.clauses.map Clause.outline⟩

end FunctionGroup

namespace Signature

/-- A signature without its constraints. -/
def outline (signature : Signature) : Signature :=
  ⟨signature.name.outline, [], TypeTerm.outlineAll signature.inputs, signature.output.outline⟩

end Signature

namespace TypeAlias

def outline (declared : TypeAlias) : TypeAlias :=
  ⟨declared.name.outline, declared.value.outline⟩

end TypeAlias

namespace Field

def outline (field : Field) : Field :=
  ⟨field.name.map Symbol.outline, field.value.outline⟩

end Field

namespace Constructor

def outline (constructor : Constructor) : Constructor :=
  ⟨constructor.name, constructor.fields.map Field.outline⟩

end Constructor

namespace Record

def outline (record : Record) : Record :=
  ⟨record.name.outline, record.constructors.map Constructor.outline⟩

end Record

namespace Declaration

def outline : Declaration → Declaration
  | typeAlias declared => typeAlias declared.outline
  | signature declared => signature declared.outline
  | function group => function group.outline
  | record declared => record declared.outline

end Declaration

namespace Program

/-- What the diagnostics of a program depend on. -/
def outline (program : Program) : Program :=
  ⟨program.declarations.map Declaration.outline⟩

end Program

/-! ## Lowering -/

namespace TypeTerm

mutual

/-- The parts that are left out take no variable numbers: a conditional takes one, whatever
its parts are. -/
theorem lower_outline : (term : TypeTerm) → term.outline.lower = term.lower
  | var _ | con _ => by
      rw [outline]
  | data _ _ | conditional _ _ _ => by
      rw [outline, lower, lower]
  | constraint ⟨className, params⟩ => by
      rw [outline, lower, lower, lowerAll_outlineAll params]
  | qualified _ body => by
      rw [outline, lower, lower, lower_outline body]
  | arrow inputs output => by
      rw [outline, lower, lower, lowerAll_outlineAll inputs, lower_outline output]
  | apply base args => by
      rw [outline, lower, lower, lower_outline base, lowerAll_outlineAll args]
  | list element => by
      rw [outline, lower, lower, lower_outline element]
  | tuple elements => by
      rw [outline, lower, lower, lowerAll_outlineAll elements]

theorem lowerAll_outlineAll : (terms : List TypeTerm) →
    lowerAll (outlineAll terms) = lowerAll terms
  | [] => by
      rw [outlineAll]
  | term :: rest => by
      rw [outlineAll, lowerAll, lowerAll, lower_outline term, lowerAll_outlineAll rest]

end

end TypeTerm

theorem Signature.lower_outline (signature : Signature) :
    signature.outline.lower = signature.lower := by
  rw [lower, lower, outline, TypeTerm.lowerAll_outlineAll, TypeTerm.lower_outline]

theorem Field.lower_outline (field : Field) : field.outline.value.lower = field.value.lower :=
  field.value.lower_outline

/-! ## Declarations -/

namespace ConstructorInfo

def outline (info : ConstructorInfo) : ConstructorInfo :=
  ⟨info.record, info.fields.map Field.outline⟩

theorem length_fields_outline (info : ConstructorInfo) :
    info.outline.fields.length = info.fields.length :=
  List.length_map _

theorem isPositional_outline (info : ConstructorInfo) :
    info.outline.isPositional = info.isPositional := by
  simp only [isPositional, outline, List.all_map]
  refine congrArg _ (funext fun field => ?_)
  exact Option.isNone_map

theorem fieldFor?_outline (info : ConstructorInfo) (position : Nat) (name : String) :
    info.outline.fieldFor? position name = (info.fieldFor? position name).map Field.outline := by
  have hname : ∀ field : Field,
      field.outline.name.map Symbol.value = field.name.map Symbol.value := by
    intro field
    rw [Field.outline, Option.map_map]
    rfl
  rw [fieldFor?, fieldFor?, isPositional_outline, outline]
  split
  · exact List.getElem?_map
  · rw [List.find?_map]
    simp only [Function.comp_def, hname]

end ConstructorInfo

namespace Globals

def outline (globals : Globals) : Globals where
  signatures := globals.signatures.mapValues Signature.outline
  aliases := globals.aliases.mapValues TypeTerm.outline
  constructors := globals.constructors.mapValues ConstructorInfo.outline

theorem addConstructors_outline (record : String) (constructors : List Constructor)
    (globals : Globals) :
    (constructors.map Constructor.outline).foldl (addConstructor record) globals.outline =
      (constructors.foldl (addConstructor record) globals).outline := by
  induction constructors generalizing globals with
  | nil => rfl
  | cons constructor rest ih =>
      have hstep : globals.outline.addConstructor record constructor.outline =
          (globals.addConstructor record constructor).outline := by
        simp only [addConstructor, outline, Table.mapValues_insert]
        rfl
      rw [List.map_cons, List.foldl_cons, List.foldl_cons, hstep, ih]

theorem note_outline (globals : Globals) (d : Declaration) :
    globals.outline.note (.ofDeclaration d.outline) =
      (globals.note (.ofDeclaration d)).outline := by
  cases d with
  | typeAlias | signature =>
      simp only [Declaration.outline, Node.ofDeclaration, note, outline, Table.mapValues_insert]
      rfl
  | function => rfl
  | record r => exact addConstructors_outline r.name.value r.constructors globals

theorem collect_outline (program : Program) :
    collect program.outline = (collect program).outline := by
  have hfold : ∀ (declarations : List Declaration) (globals : Globals),
      (declarations.map Declaration.outline).foldl
          (fun globals d => globals.note (.ofDeclaration d)) globals.outline =
        (declarations.foldl
          (fun globals d => globals.note (.ofDeclaration d)) globals).outline := by
    intro declarations
    induction declarations with
    | nil => exact fun _ => rfl
    | cons d rest ih =>
        intro globals
        rw [List.map_cons, List.foldl_cons, List.foldl_cons, note_outline, ih]
  rw [collect_eq, collect_eq, Program.outline]
  exact hfold program.declarations {}

end Globals

namespace Setting

/-- The setting with the outlines of its declarations. Lowered aliases have nothing to leave
out. -/
def outline (setting : Setting) : Setting :=
  { setting with globals := setting.globals.outline }

theorem ofGlobals_outline (globals : Globals) (orders : Orders) :
    ofGlobals globals.outline orders =
      ((ofGlobals globals orders).1.outline, (ofGlobals globals orders).2) := by
  have hlower : ∀ (declared : List (String × TypeTerm)) (next : Nat),
      lowerAliases (declared.map fun entry => (entry.1, entry.2.outline)) next =
        lowerAliases declared next := by
    intro declared next
    simp only [lowerAliases, List.foldl_map, TypeTerm.lower_outline]
  have harranged : globals.outline.aliases.arranged orders.aliases =
      (globals.aliases.arranged orders.aliases).map fun entry => (entry.1, entry.2.outline) :=
    Table.arranged_mapValues _ _ _
  simp only [ofGlobals, harranged, hlower]
  rfl

variable (setting : Setting)

/-! ## Names and operands -/

theorem get?_signatures_outline (name : String) :
    setting.outline.globals.signatures.get? name =
      (setting.globals.signatures.get? name).map Signature.outline :=
  Table.get?_mapValues _ _ _

theorem get?_constructors_outline (name : String) :
    setting.outline.globals.constructors.get? name =
      (setting.globals.constructors.get? name).map ConstructorInfo.outline :=
  Table.get?_mapValues _ _ _

theorem lookup_outline (name : String) : setting.outline.lookup name = setting.lookup name := by
  have hfields : ∀ info : ConstructorInfo,
      TypeTerm.lowerAll (info.outline.fields.map Field.value) =
        TypeTerm.lowerAll (info.fields.map Field.value) := by
    intro info
    have hterms : ∀ fields : List Field, (fields.map Field.outline).map Field.value =
        TypeTerm.outlineAll (fields.map Field.value) := by
      intro fields
      induction fields with
      | nil => rfl
      | cons field rest ih =>
          rw [List.map_cons, List.map_cons, ih, List.map_cons, TypeTerm.outlineAll]
          rfl
    rw [ConstructorInfo.outline, hterms, TypeTerm.lowerAll_outlineAll]
  unfold lookup
  rw [get?_signatures_outline, get?_constructors_outline]
  cases setting.globals.signatures.get? name with
  | some signature => simp only [Option.map_some, signature.lower_outline]
  | none =>
      cases setting.globals.constructors.get? name with
      | some info =>
          simp only [Option.map_none, Option.map_some, hfields]
          rfl
      | none => rfl

theorem declares_outline (scopes : Scopes) (name : String) :
    setting.outline.declares scopes name = setting.declares scopes name := by
  simp [declares, outline, Globals.outline, Table.contains]

theorem length_values_outline : (fields : List FieldExpression) →
    (FieldExpression.outlineAll fields).length = fields.length
  | [] => by
      rw [FieldExpression.outlineAll]
  | ⟨_, _⟩ :: rest => by
      rw [FieldExpression.outlineAll, List.length_cons, length_values_outline rest,
        List.length_cons]

theorem length_outlineAll (patterns : List Pattern) :
    (Pattern.outlineAll patterns).length = patterns.length := by
  induction patterns with
  | nil => rfl
  | cons pattern rest ih => rw [Pattern.outlineAll, List.length_cons, ih, List.length_cons]

theorem isEmpty_outlineAll (patterns : List Pattern) :
    (Pattern.outlineAll patterns).isEmpty = patterns.isEmpty := by
  cases patterns <;> rfl

theorem freshFor_outlineAll (patterns : List Pattern) :
    Check.freshFor (Pattern.outlineAll patterns) = Check.freshFor patterns := by
  induction patterns with
  | nil => rfl
  | cons pattern rest ih => rw [Pattern.outlineAll, Check.freshFor, ih, Check.freshFor]

/-- The setting with other declarations and the same lowered aliases. -/
def withGlobals (setting : Setting) (globals : Globals) : Setting :=
  { setting with globals }

/-- Declarations over which every name keeps its meaning and every constructor has the
outlines of its fields. Steps of the checker see no more of declarations than this. -/
structure Outlines (setting : Setting) (globals : Globals) : Prop where
  lookup : ∀ name, (setting.withGlobals globals).lookup name = setting.lookup name
  declares : ∀ scopes name,
    (setting.withGlobals globals).declares scopes name = setting.declares scopes name
  constructors : ∀ name, (setting.withGlobals globals).globals.constructors.get? name =
    (setting.globals.constructors.get? name).map ConstructorInfo.outline

theorem outlines_outline : setting.Outlines setting.globals.outline where
  lookup := setting.lookup_outline
  declares := setting.declares_outline
  constructors := setting.get?_constructors_outline

section Steps

variable {setting} {globals : Globals}

theorem constructorFor_outline (h : setting.Outlines globals) (name : String) (given : Nat) :
    (setting.withGlobals globals).constructorFor name given =
      ConstructorInfo.outline <$> setting.constructorFor name given := by
  unfold constructorFor
  rw [h.constructors]
  cases setting.globals.constructors.get? name with
  | none => rfl
  | some info =>
      simp only [Option.map_some, info.length_fields_outline]
      split <;> rfl

/-! ## Expressions and patterns -/

mutual

theorem inferExpression_outline (h : setting.Outlines globals) : (e : Expression) →
    (setting.withGlobals globals).inferExpression e.outline = setting.inferExpression e
  | .primitive p => by
      rw [Expression.outline, inferExpression, inferExpression, inferPrimitive_outline h p]
  | .operation o => by
      rw [Expression.outline, inferExpression, inferExpression, inferOperation_outline h o]
  | .tuple elements => by
      rw [Expression.outline, inferExpression, inferExpression, inferAll_outline h elements]
  | .conditional condition yes no => by
      rw [Expression.outline, inferExpression, inferExpression, inferExpression_outline h condition,
        inferExpression_outline h yes, inferExpression_outline h no]
      rfl
  | .cons head tail => by
      rw [Expression.outline, inferExpression, inferExpression, inferExpression_outline h head,
        inferExpression_outline h tail]
      rfl
  | .data name fields => by
      rw [Expression.outline, inferExpression, inferExpression, Symbol.outline,
        h.constructors]
      cases setting.globals.constructors.get? name.value with
      | none => rfl
      | some info =>
          simp only [Option.map_some, info.isPositional_outline, info.length_fields_outline,
            length_values_outline fields, inferFields_outline h name.value info fields]
          rfl
  | .composition left right => by
      rw [Expression.outline, inferExpression, inferExpression, inferExpression_outline h left,
        inferExpression_outline h right]
      rfl
  | .lambda parameters body => by
      rw [Expression.outline, inferExpression, inferExpression, bindParameters_outline h parameters,
        inferExpression_outline h body]
  | .application f argument => by
      rw [Expression.outline, inferExpression, inferExpression, inferExpression_outline h f,
        inferExpression_outline h argument]
      rfl
  | .infixed operator left right => by
      rw [Expression.outline, inferExpression, inferExpression, inferExpression_outline h left,
        inferExpression_outline h right]
      simp only [Symbol.outline, h.declares, h.lookup]
      rfl

theorem inferPrimitive_outline (h : setting.Outlines globals) : (p : Primitive) →
    (setting.withGlobals globals).inferPrimitive p.outline = setting.inferPrimitive p
  | .number .. | .boolean .. | .char .. | .string .. | .null .. | .undefined .. => by
      rw [Primitive.outline, inferPrimitive, inferPrimitive]
  | .symbol name => by
      rw [Primitive.outline, inferPrimitive, inferPrimitive, h.lookup]
      rfl
  | .list elements _ => by
      rw [Primitive.outline, inferPrimitive, inferPrimitive]
      simp only [inferElements_outline h _ elements]

theorem inferOperation_outline (h : setting.Outlines globals) : (o : Operation) →
    (setting.withGlobals globals).inferOperation o.outline = setting.inferOperation o
  | ⟨operator, left, right, _⟩ => by
      rw [Operation.outline, inferOperation, inferOperation, inferExpression_outline h left,
        inferExpression_outline h right]
      rfl

theorem inferAll_outline (h : setting.Outlines globals) : (es : List Expression) →
    (setting.withGlobals globals).inferAll (Expression.outlineAll es) = setting.inferAll es
  | [] => by
      rw [Expression.outlineAll, inferAll, inferAll]
  | e :: rest => by
      rw [Expression.outlineAll, inferAll, inferAll, inferExpression_outline h e,
        inferAll_outline h rest]

theorem inferElements_outline (h : setting.Outlines globals) (element : Ty) :
    (es : List Expression) →
    (setting.withGlobals globals).inferElements element (Expression.outlineAll es) =
      setting.inferElements element es
  | [] => by
      rw [Expression.outlineAll, inferElements, inferElements]
  | e :: rest => by
      rw [Expression.outlineAll, inferElements, inferElements, inferExpression_outline h e,
        inferElements_outline h element rest]
      rfl

theorem inferFields_outline (h : setting.Outlines globals) (name : String)
    (info : ConstructorInfo) :
    (fields : List FieldExpression) → (position : Nat) → (names : Table String TypeVar) →
    (setting.withGlobals globals).inferFields name info.outline (FieldExpression.outlineAll fields)
        position names =
      setting.inferFields name info fields position names
  | [], _, _ => by
      rw [FieldExpression.outlineAll, inferFields, inferFields]
  | ⟨fieldName, value⟩ :: rest, position, names => by
      rw [FieldExpression.outlineAll, inferFields, inferFields, Symbol.outline,
        info.fieldFor?_outline]
      cases info.fieldFor? position fieldName.value with
      | none => rfl
      | some field =>
          simp only [Option.map_some, field.lower_outline, inferExpression_outline h value,
            inferFields_outline h name info rest]
          rfl

theorem bindPattern_outline (h : setting.Outlines globals) : (p : Pattern) → (expected : Ty) →
    (setting.withGlobals globals).bindPattern p.outline expected = setting.bindPattern p expected
  | .wildcard, _ => by
      rw [Pattern.outline, bindPattern, bindPattern]
  | .literal p, _ => by
      rw [Pattern.outline, bindPattern, bindPattern, inferPrimitive_outline h p]
      rfl
  | .var _, _ => by
      rw [Pattern.outline, bindPattern, bindPattern]
      rfl
  | .constructor name patterns, expected => by
      rw [Pattern.outline, bindPattern, bindPattern, isEmpty_outlineAll, length_outlineAll,
        constructorFor_outline h]
      simp only [bind_map_left, ConstructorInfo.outline, bindFields_outline h patterns]
      rfl
  | .list elements, expected => by
      rw [Pattern.outline, bindPattern, bindPattern]
      simp only [bindEach_outline h elements]
      rfl
  | .cons head tail, expected => by
      rw [Pattern.outline, bindPattern, bindPattern]
      simp only [bindPattern_outline h head, bindPattern_outline h tail]
      rfl
  | .as whole pattern, expected => by
      rw [Pattern.outline, bindPattern, bindPattern, bindPattern_outline h whole,
        bindPattern_outline h pattern]
  | .tuple elements, expected => by
      rw [Pattern.outline, bindPattern, bindPattern, freshFor_outlineAll]
      simp only [bindAll_outline h elements]
      rfl

theorem bindFields_outline (h : setting.Outlines globals) :
    (patterns : List Pattern) → (fields : List Field) → (names : Table String TypeVar) →
    (setting.withGlobals globals).bindFields (Pattern.outlineAll patterns)
        (fields.map Field.outline) names =
      setting.bindFields patterns fields names
  | [], _, _ => by
      rw [Pattern.outlineAll, bindFields, bindFields]
      · simp
      · simp
  | _ :: _, [], _ => by
      rw [Pattern.outlineAll, List.map_nil, bindFields, bindFields]
      · simp
      · simp
  | pattern :: rest, field :: fields, names => by
      rw [Pattern.outlineAll, List.map_cons, bindFields, bindFields, field.lower_outline]
      simp only [bindPattern_outline h pattern, bindFields_outline h rest fields]

theorem bindEach_outline (h : setting.Outlines globals) :
    (patterns : List Pattern) → (expected : Ty) →
    (setting.withGlobals globals).bindEach (Pattern.outlineAll patterns) expected =
      setting.bindEach patterns expected
  | [], _ => by
      rw [Pattern.outlineAll, bindEach, bindEach]
  | pattern :: rest, expected => by
      rw [Pattern.outlineAll, bindEach, bindEach, bindPattern_outline h pattern,
        bindEach_outline h rest]

theorem bindAll_outline (h : setting.Outlines globals) :
    (patterns : List Pattern) → (types : List Ty) →
    (setting.withGlobals globals).bindAll (Pattern.outlineAll patterns) types =
      setting.bindAll patterns types
  | [], _ => by
      rw [Pattern.outlineAll, bindAll, bindAll]
      · simp
      · simp
  | _ :: _, [] => by
      rw [Pattern.outlineAll, bindAll, bindAll]
      · simp
      · simp
  | pattern :: rest, expected :: types => by
      rw [Pattern.outlineAll, bindAll, bindAll, bindPattern_outline h pattern,
        bindAll_outline h rest types]

theorem bindParameters_outline (h : setting.Outlines globals) : (patterns : List Pattern) →
    (setting.withGlobals globals).bindParameters (Pattern.outlineAll patterns) =
      setting.bindParameters patterns
  | [] => by
      rw [Pattern.outlineAll, bindParameters, bindParameters]
  | pattern :: rest => by
      rw [Pattern.outlineAll, bindParameters, bindParameters]
      simp only [bindPattern_outline h pattern, bindParameters_outline h rest]

end

/-! ## Clauses and functions -/

theorem checkExpression_outline (h : setting.Outlines globals) (context : String)
    (expected : Ty) (e : Expression) :
    (setting.withGlobals globals).checkExpression context expected e.outline =
      setting.checkExpression context expected e := by
  rw [checkExpression, inferExpression_outline h]
  rfl

theorem checkGuards_outline (h : setting.Outlines globals) (expected : Ty) (guards : List Guard) :
    (setting.withGlobals globals).checkGuards expected (guards.map Guard.outline) =
      setting.checkGuards expected guards := by
  induction guards with
  | nil => rfl
  | cons guard rest ih =>
      rw [List.map_cons, checkGuards, checkGuards, Guard.outline, checkExpression_outline h,
        checkExpression_outline h, ih]

theorem checkResult_outline (h : setting.Outlines globals) (expected : Ty) (body : ClauseBody) :
    (setting.withGlobals globals).checkResult expected body.outline =
      setting.checkResult expected body := by
  cases body with
  | unguarded e => exact congrArg failure (checkExpression_outline h _ expected e)
  | guarded guards => exact checkGuards_outline h expected guards

theorem checkClause_outline (h : setting.Outlines globals) (signature : Signature)
    (clause : Clause) :
    (setting.withGlobals globals).checkClause signature.outline clause.outline =
      setting.checkClause signature clause := by
  rw [checkClause, checkClause, signature.lower_outline, Clause.outline]
  simp only [length_outlineAll, bindAll_outline h, checkResult_outline h]

theorem checkClauses_outline (h : setting.Outlines globals) (group : FunctionGroup)
    (signature : Signature) (number : Nat) (clauses : List Clause) :
    (setting.withGlobals globals).checkClauses group.outline signature.outline number
        (clauses.map Clause.outline) =
      setting.checkClauses group signature number clauses := by
  induction clauses generalizing number with
  | nil => rfl
  | cons clause rest ih =>
      rw [List.map_cons, checkClauses, checkClauses, checkClause_outline h, ih]
      rfl

end Steps

theorem checkFunction_outline (group : FunctionGroup) :
    setting.outline.checkFunction group.outline = setting.checkFunction group := by
  have hname : group.outline.name.value = group.name.value := rfl
  rw [checkFunction, checkFunction, hname, get?_signatures_outline]
  cases setting.globals.signatures.get? group.name.value with
  | none => rfl
  | some signature =>
      exact checkClauses_outline setting.outlines_outline group signature 1 group.clauses

theorem checkFunctions_outline (groups : List FunctionGroup) :
    setting.outline.checkFunctions (groups.map FunctionGroup.outline) =
      setting.checkFunctions groups := by
  induction groups with
  | nil => rfl
  | cons group rest ih =>
      rw [List.map_cons, checkFunctions, checkFunctions, checkFunction_outline, ih]

end Setting

namespace Program

theorem functions_outline (program : Program) :
    program.outline.functions = program.functions.map FunctionGroup.outline := by
  rw [functions, functions, outline, List.filterMap_map, List.map_filterMap]
  refine List.filterMap_congr fun d _ => ?_
  cases d <;> rfl

theorem diagnostics_outline (program : Program) (orders : Orders) :
    program.outline.diagnostics orders = program.diagnostics orders := by
  rw [diagnostics, diagnostics, Node.filterMap_asFunction?, Node.filterMap_asFunction?,
    functions_outline, diagnosticsOf, diagnosticsOf, Globals.collect_outline,
    Setting.ofGlobals_outline]
  dsimp only
  rw [Setting.checkFunctions_outline]

/-- Programs with the same outline have the same diagnostics, down to the numbers of their
type variables. -/
theorem diagnostics_eq_of_outline_eq (orders : Orders) {first second : Program}
    (h : first.outline = second.outline) :
    first.diagnostics orders = second.diagnostics orders := by
  rw [← diagnostics_outline first, h, diagnostics_outline second]

/-- A switch that is matched against a number in its first clause and answered by a truth
value in place of a list in its second. -/
def toggle (remark : Option String) (loc : Span) (value : Float) (answer : Bool)
    (body : ClauseBody) (attributes : List String) (context : List Constraint)
    (cases : List DataCase) (condition : TypeTerm) : Program :=
  let output := .qualified context (.list (.conditional condition condition condition))
  let result := .unguarded (.primitive (.boolean answer loc))
  ⟨[.signature ⟨⟨"toggle", remark, loc⟩, context, [.data "Switch" cases], output⟩,
    .function ⟨⟨"toggle", remark, {}⟩,
      [⟨[.literal (.number "number" value loc)], body, result, attributes⟩,
        ⟨[.var ⟨"x", remark, loc⟩], body, result, attributes⟩]⟩]⟩

theorem diagnostics_toggle_eq :
    let bare := toggle none {} 0 true (.guarded []) [] [] [] (.con "Bool")
    let full := toggle (some "flips a switch") ⟨⟨1, 2, 3⟩, ⟨1, 9, 10⟩⟩ 2.5 false
      (.unguarded (.ofName "undefinedName")) [Clause.guardedAttribute] [⟨"Show", [.var "a"]⟩]
      [⟨"On", []⟩, ⟨"Off", [.var "b"]⟩] (.var "c")
    bare.outline = full.outline ∧ bare.diagnostics = full.diagnostics ∧
      full.diagnostics =
        [⟨"toggle", 1, {}, .nonNumericLiteral (.con "Switch")⟩,
          ⟨"toggle", 2, {}, .mismatch (.list (.var ⟨2, none⟩)) .bool (some "return value")⟩] := by
  refine ⟨rfl, diagnostics_eq_of_outline_eq {} rfl, ?_⟩
  rw [diagnostics, Node.filterMap_asFunction?, diagnosticsOf, Globals.collect_eq]
  rfl

end Program

end Rubric
