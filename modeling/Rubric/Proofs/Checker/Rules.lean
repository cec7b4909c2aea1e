import Rubric.Proofs.Types.Normal
import Rubric.Typing.Checking

/-!
# Typing rules

What it means for a clause to have its declared type, said without variables to be
solved: where inference takes a new variable the rules take any type, and where it
requires an equation they use one type twice. The rules are parametric in a discipline,
which says when types count as equal, which types a numeric literal may have, and which
operands an operator accepts.

Two disciplines matter. Under the strict one equality is equality of full expansions, and
operators look at their operands. Under the lenient one equality is the least congruence
that identifies aliases with their bodies, and operators only want operands of one type.
-/

namespace Rubric

/-! ## Instances of written types -/

namespace TypeTerm

mutual

/-- A written type with its variables replaced. A conditional type can be any type. -/
inductive Instance (ρ : String → Ty) : TypeTerm → Ty → Prop where
  | var (name : String) : Instance ρ (.var name) (ρ name)
  | con (name : String) : Instance ρ (.con name) (.con name)
  | constraint {className : String} {params : List TypeTerm} {args : List Ty} :
      Instances ρ params args →
      Instance ρ (.constraint ⟨className, params⟩) (.app (.con className) args)
  | qualified {context : List Constraint} {body : TypeTerm} {t : Ty} :
      Instance ρ body t → Instance ρ (.qualified context body) t
  | arrow {inputs : List TypeTerm} {output : TypeTerm} {ts : List Ty} {t : Ty} :
      Instances ρ inputs ts → Instance ρ output t →
      Instance ρ (.arrow inputs output) (.curried ts t)
  | apply {base : TypeTerm} {args : List TypeTerm} {t : Ty} {ts : List Ty} :
      Instance ρ base t → Instances ρ args ts → Instance ρ (.apply base args) (.app t ts)
  | list {element : TypeTerm} {t : Ty} :
      Instance ρ element t → Instance ρ (.list element) (.list t)
  | tuple {elements : List TypeTerm} {ts : List Ty} :
      Instances ρ elements ts → Instance ρ (.tuple elements) (.tuple ts)
  | data (name : String) (cases : List DataCase) : Instance ρ (.data name cases) (.con name)
  | conditional (condition yes no : TypeTerm) (t : Ty) :
      Instance ρ (.conditional condition yes no) t

/-- Several written types with their variables replaced alike. -/
inductive Instances (ρ : String → Ty) : List TypeTerm → List Ty → Prop where
  | nil : Instances ρ [] []
  | cons {term : TypeTerm} {rest : List TypeTerm} {t : Ty} {ts : List Ty} :
      Instance ρ term t → Instances ρ rest ts → Instances ρ (term :: rest) (t :: ts)

end

theorem Instances.length_eq {ρ : String → Ty} :
    {terms : List TypeTerm} → {ts : List Ty} → Instances ρ terms ts → terms.length = ts.length
  | _, _, .nil => rfl
  | _, _, .cons _ hrest => congrArg Nat.succ hrest.length_eq

end TypeTerm

/-! ## Disciplines -/

/-- What the typing rules leave open. -/
structure Discipline where
  /-- Types that count as equal. -/
  equal : Ty → Ty → Prop
  /-- Types of literals of the generic numeric kind. -/
  number : Ty → Prop
  /-- Types of operands whose operator gives back their type. -/
  operand : Operator → Ty → Prop

namespace Discipline

/-- Types are equal up to full expansion, and operators look at their operands. -/
def strict (aliases : Aliases) : Discipline where
  equal a b := aliases.normal a = aliases.normal b
  number τ := ∃ kind ∈ Ty.numericKinds, aliases.normal τ = .con kind
  operand
    | .arithmetic _, τ => ∃ kind ∈ Ty.numericKinds, aliases.normal τ = .con kind
    | .bitwise _, τ => ∃ kind ∈ Ty.integralKinds, aliases.normal τ = .con kind
    | .concat, τ => (∃ element, aliases.normal τ = .list element) ∨ aliases.normal τ = .string
    | .comparison _, _ => True
    | .logical _, _ => True

/-- Types are equal up to aliases, and operators accept what has one type. -/
def lenient (aliases : Aliases) : Discipline where
  equal := aliases.Equal
  number τ := (∃ v, τ = .var v) ∨ ∃ kind ∈ Ty.numericKinds, aliases.expand τ = .con kind
  operand _ _ := True

/-- The type of an operation on operands of two types. -/
inductive Operates (D : Discipline) : Operator → Ty → Ty → Ty → Prop where
  | arithmetic {operator : ArithmeticOperator} {τ : Ty} :
      D.operand (.arithmetic operator) τ → Operates D (.arithmetic operator) τ τ τ
  | bitwise {operator : BitwiseOperator} {τ : Ty} :
      D.operand (.bitwise operator) τ → Operates D (.bitwise operator) τ τ τ
  | comparison (operator : ComparisonOperator) (τ : Ty) :
      Operates D (.comparison operator) τ τ .bool
  | logical (operator : LogicalOperator) : Operates D (.logical operator) .bool .bool .bool
  | concat {τ : Ty} : D.operand .concat τ → Operates D .concat τ τ τ

end Discipline

/-! ## Names -/

/-- The types of the names that patterns have bound. -/
abbrev Context := String → Option Ty

namespace Context

/-- The context without names. -/
def empty : Context := fun _ => none

/-- Bind a name, hiding what it was bound to. -/
def bind (Γ : Context) (name : String) (τ : Ty) : Context :=
  fun n => if name = n then some τ else Γ n

end Context

namespace Setting

variable (setting : Setting)

/-- Neither a pattern nor the program gives a meaning to a name. -/
def Undeclared (Γ : Context) (name : String) : Prop :=
  Γ name = none ∧ setting.globals.signatures.get? name = none ∧
    setting.globals.constructors.get? name = none

/-- The types a name can be used at. -/
inductive Named (Γ : Context) (name : String) : Ty → Prop where
  | bound {τ : Ty} : Γ name = some τ → Named Γ name τ
  | signature {signature : Signature} {ρ : String → Ty} {inputs : List Ty} {output : Ty} :
      Γ name = none → setting.globals.signatures.get? name = some signature →
      TypeTerm.Instances ρ signature.inputs inputs → signature.output.Instance ρ output →
      Named Γ name (.curried inputs output)
  | constructor {info : ConstructorInfo} {ρ : String → Ty} {fields : List Ty} :
      Γ name = none → setting.globals.signatures.get? name = none →
      setting.globals.constructors.get? name = some info →
      TypeTerm.Instances ρ (info.fields.map Field.value) fields →
      Named Γ name (.curried fields (.con info.record))
  | builtin {scheme : Scheme} (f : TypeVar → Ty) :
      setting.Undeclared Γ name → Prelude.builtin? name = some scheme →
      Named Γ name (scheme.body.subst f)
  | unknown (τ : Ty) : setting.Undeclared Γ name → Prelude.builtin? name = none →
      Named Γ name τ

end Setting

/-! ## Expressions and patterns -/

mutual

/-- An expression has a type in a context. -/
inductive Typed (D : Discipline) (setting : Setting) : Context → Expression → Ty → Prop where
  | convert {Γ : Context} {e : Expression} {τ τ' : Ty} :
      Typed D setting Γ e τ → D.equal τ τ' → Typed D setting Γ e τ'
  | genericNumber {Γ : Context} {kind : String} {value : Float} {loc : Span} {τ : Ty} :
      Setting.isGenericKind kind = true → D.number τ →
      Typed D setting Γ (.primitive (.number kind value loc)) τ
  | number {Γ : Context} {kind : String} {value : Float} {loc : Span} :
      Setting.isGenericKind kind = false →
      Typed D setting Γ (.primitive (.number kind value loc)) (.con kind)
  | boolean {Γ : Context} {value : Bool} {loc : Span} :
      Typed D setting Γ (.primitive (.boolean value loc)) .bool
  | char {Γ : Context} {value : String} {loc : Span} :
      Typed D setting Γ (.primitive (.char value loc)) .char
  | string {Γ : Context} {value : String} {loc : Span} :
      Typed D setting Γ (.primitive (.string value loc)) .string
  | null {Γ : Context} {loc : Span} (τ : Ty) : Typed D setting Γ (.primitive (.null loc)) τ
  | undefined {Γ : Context} {loc : Span} (τ : Ty) :
      Typed D setting Γ (.primitive (.undefined loc)) τ
  | symbol {Γ : Context} {symbol : Symbol} {τ : Ty} : setting.Named Γ symbol.value τ →
      Typed D setting Γ (.primitive (.symbol symbol)) τ
  | list {Γ : Context} {elements : List Expression} {loc : Span} {τ : Ty} :
      (∀ e ∈ elements, Typed D setting Γ e τ) →
      Typed D setting Γ (.primitive (.list elements loc)) (.list τ)
  | operation {Γ : Context} {operator : Operator} {left right : Expression} {loc : Span}
      {α β τ : Ty} : Typed D setting Γ left α → Typed D setting Γ right β →
      D.Operates operator α β τ → Typed D setting Γ (.operation ⟨operator, left, right, loc⟩) τ
  | tuple {Γ : Context} {elements : List Expression} {τs : List Ty} :
      TypedAll D setting Γ elements τs → Typed D setting Γ (.tuple elements) (.tuple τs)
  | conditional {Γ : Context} {condition yes no : Expression} {τ : Ty} :
      Typed D setting Γ condition .bool → Typed D setting Γ yes τ → Typed D setting Γ no τ →
      Typed D setting Γ (.conditional condition yes no) τ
  | cons {Γ : Context} {head tail : Expression} {τ : Ty} :
      Typed D setting Γ head τ → Typed D setting Γ tail (.list τ) →
      Typed D setting Γ (.cons head tail) (.list τ)
  | data {Γ : Context} {name : Symbol} {fields : List FieldExpression} {info : ConstructorInfo}
      {ρ : String → Ty} {φ : Nat → Ty} :
      setting.globals.constructors.get? name.value = some info →
      (info.isPositional = true → info.fields.length = fields.length) →
      (∀ i given, fields[i]? = some given →
        ∃ field, info.fieldFor? i given.name.value = some field ∧
          field.value.Instance ρ (φ i)) →
      (∀ i given, fields[i]? = some given → Typed D setting Γ given.value (φ i)) →
      Typed D setting Γ (.data name fields) (.con info.record)
  | composition {Γ : Context} {left right : Expression} {α β γ : Ty} :
      Typed D setting Γ left (.func β γ) → Typed D setting Γ right (.func α β) →
      Typed D setting Γ (.composition left right) (.func α γ)
  | lambda {Γ Δ : Context} {parameters : List Pattern} {body : Expression} {τs : List Ty}
      {τ : Ty} : MatchesAll D setting Γ parameters τs Δ → Typed D setting Δ body τ →
      Typed D setting Γ (.lambda parameters body) (.curried τs τ)
  | application {Γ : Context} {f argument : Expression} {α τ : Ty} :
      Typed D setting Γ f (.func α τ) → Typed D setting Γ argument α →
      Typed D setting Γ (.application f argument) τ
  | joined {Γ : Context} {operator : Symbol} {left right : Expression} {τ : Ty} :
      operator.value = "++" → setting.Undeclared Γ operator.value →
      Typed D setting Γ left τ → Typed D setting Γ right τ → D.operand .concat τ →
      Typed D setting Γ (.infixed operator left right) τ
  | infixed {Γ : Context} {operator : Symbol} {left right : Expression} {π α β τ : Ty} :
      ¬ (operator.value = "++" ∧ setting.Undeclared Γ operator.value) →
      setting.Named Γ operator.value π → D.equal π (.curried [α, β] τ) →
      Typed D setting Γ left α → Typed D setting Γ right β →
      Typed D setting Γ (.infixed operator left right) τ

/-- Expressions have types, one by one. -/
inductive TypedAll (D : Discipline) (setting : Setting) :
    Context → List Expression → List Ty → Prop where
  | nil {Γ : Context} : TypedAll D setting Γ [] []
  | cons {Γ : Context} {e : Expression} {rest : List Expression} {τ : Ty} {τs : List Ty} :
      Typed D setting Γ e τ → TypedAll D setting Γ rest τs →
      TypedAll D setting Γ (e :: rest) (τ :: τs)

/-- A pattern takes apart values of a type and extends the context by its names. -/
inductive Matches (D : Discipline) (setting : Setting) :
    Context → Pattern → Ty → Context → Prop where
  | convert {Γ Δ : Context} {p : Pattern} {τ τ' : Ty} :
      Matches D setting Γ p τ Δ → D.equal τ τ' → Matches D setting Γ p τ' Δ
  | wildcard {Γ : Context} {τ : Ty} : Matches D setting Γ .wildcard τ Γ
  | literal {Γ : Context} {literal : Primitive} {τ : Ty} :
      Typed D setting Γ (.primitive literal) τ → Matches D setting Γ (.literal literal) τ Γ
  | var {Γ : Context} {symbol : Symbol} {τ : Ty} :
      Matches D setting Γ (.var symbol) τ (Γ.bind symbol.value τ)
  | truth {Γ : Context} {name : String} : name = "True" ∨ name = "False" →
      Matches D setting Γ (.constructor name []) .bool Γ
  | constructor {Γ Δ : Context} {name : String} {patterns : List Pattern}
      {info : ConstructorInfo} {ρ : String → Ty} {τs : List Ty} :
      ¬ ((name = "True" ∨ name = "False") ∧ patterns = []) →
      setting.globals.constructors.get? name = some info →
      TypeTerm.Instances ρ (info.fields.map Field.value) τs →
      MatchesAll D setting Γ patterns τs Δ →
      Matches D setting Γ (.constructor name patterns) (.con info.record) Δ
  | list {Γ Δ : Context} {elements : List Pattern} {τ : Ty} :
      MatchesAll D setting Γ elements (List.replicate elements.length τ) Δ →
      Matches D setting Γ (.list elements) (.list τ) Δ
  | cons {Γ Δ Ξ : Context} {head tail : Pattern} {τ : Ty} :
      Matches D setting Γ head τ Δ → Matches D setting Δ tail (.list τ) Ξ →
      Matches D setting Γ (.cons head tail) (.list τ) Ξ
  | as {Γ Δ Ξ : Context} {whole pattern : Pattern} {τ : Ty} :
      Matches D setting Γ whole τ Δ → Matches D setting Δ pattern τ Ξ →
      Matches D setting Γ (.as whole pattern) τ Ξ
  | tuple {Γ Δ : Context} {elements : List Pattern} {τs : List Ty} :
      MatchesAll D setting Γ elements τs Δ →
      Matches D setting Γ (.tuple elements) (.tuple τs) Δ

/-- Patterns take apart values of several types, one after the other. -/
inductive MatchesAll (D : Discipline) (setting : Setting) :
    Context → List Pattern → List Ty → Context → Prop where
  | nil {Γ : Context} : MatchesAll D setting Γ [] [] Γ
  | cons {Γ Δ Ξ : Context} {p : Pattern} {rest : List Pattern} {τ : Ty} {τs : List Ty} :
      Matches D setting Γ p τ Δ → MatchesAll D setting Δ rest τs Ξ →
      MatchesAll D setting Γ (p :: rest) (τ :: τs) Ξ

end

/-! ## Clauses -/

/-- A right-hand side has a type: the single expression, or every guard's result, with
every guard's condition a truth value. -/
def BodyTyped (D : Discipline) (setting : Setting) (Γ : Context) (τ : Ty) : ClauseBody → Prop
  | .unguarded e => Typed D setting Γ e τ
  | .guarded guards => ∀ guard ∈ guards,
      Typed D setting Γ guard.condition .bool ∧ Typed D setting Γ guard.result τ

/-- A clause has some instance of its signature: the parameters match the leading inputs,
and the result has what is left of it as its type. -/
def ClauseTyped (D : Discipline) (setting : Setting) (signature : Signature) (clause : Clause) :
    Prop :=
  ∃ (ρ : String → Ty) (inputs : List Ty) (output : Ty) (Γ : Context),
    TypeTerm.Instances ρ signature.inputs inputs ∧ signature.output.Instance ρ output ∧
    clause.parameters.length ≤ inputs.length ∧
    MatchesAll D setting .empty clause.parameters (inputs.take clause.parameters.length) Γ ∧
    BodyTyped D setting Γ (.curried (inputs.drop clause.parameters.length) output) clause.result

/-! ## An example

A function that turns a list around, with the alias `Amount` for integers:

    rotate : Amount -> [a] -> [a]
    rotate n (x : xs) | n > 0     = rotate (n - 1) (xs ++ [x])
                      | otherwise = x : xs
-/

namespace Rotation

/-- The signature of `rotate`. -/
def signature : Signature where
  name := ⟨"rotate", none, {}⟩
  inputs := [.con "Amount", .list (.var "a")]
  output := .list (.var "a")

/-- The declarations around `rotate`. -/
def setting : Setting where
  globals := { signatures := .singleton "rotate" signature }
  aliases := .ofList [("Amount", .con "Int")]

/-- A literal of the generic numeric kind. -/
def literal (value : Float) : Expression :=
  .primitive (.number "" value {})

/-- The rest of the list with the first element behind it. -/
def turned : Expression :=
  .infixed ⟨"++", none, {}⟩ (.ofName "xs") (.primitive (.list [.ofName "x"] {}))

/-- The guards of `rotate`, which hold what is checked as their results. -/
def guards : List Guard :=
  [⟨.binary (.comparison .gt) (.ofName "n") (literal 0), .ofName "rest",
      .call (.ofName "rotate") [.binary (.arithmetic .sub) (.ofName "n") (literal 1), turned]⟩,
    ⟨.ofName "otherwise", .ofName "rest", .cons (.ofName "x") (.ofName "xs")⟩]

/-- The clause of `rotate`. -/
def clause : Clause where
  parameters := [.var ⟨"n", none, {}⟩, .cons (.var ⟨"x", none, {}⟩) (.var ⟨"xs", none, {}⟩)]
  body := .guarded guards
  result := .guarded guards

theorem varFree : setting.aliases.VarFree :=
  Aliases.varFree_empty.insert Ty.all_con

theorem acyclic : setting.aliases.Acyclic := by
  refine acyclic_of_rank (fun name => if name = "Amount" then 1 else 0) ?_
  rintro name other ⟨body, hbody, hother⟩
  have hget : setting.aliases.get? name = if "Amount" = name then some (.con "Int") else none :=
    Aliases.get?_insert .empty "Amount" name (.con "Int")
  rw [hget] at hbody
  split at hbody
  · next hname =>
      cases hbody
      obtain rfl : other = "Int" := by simpa using hother
      simp [← hname]
  · cases hbody

/-- What the parameters of `rotate` bind, for a list of characters. -/
def context : Context :=
  ((Context.empty.bind "n" (.con "Amount")).bind "x" .char).bind "xs" (.list .char)

theorem typed_name {name : String} {τ : Ty} (h : context name = some τ) :
    Typed (.strict setting.aliases) setting context (.ofName name) τ :=
  .symbol (.bound h)

theorem typed_literal (value : Float) :
    Typed (.strict setting.aliases) setting context (literal value) (.con "Amount") :=
  .genericNumber rfl ⟨"Int", by decide, rfl⟩

theorem typed_turned :
    Typed (.strict setting.aliases) setting context turned (.list .char) := by
  refine .joined rfl ⟨rfl, rfl, rfl⟩ (typed_name rfl) ?_ (.inl ⟨.char, rfl⟩)
  refine .list fun e he => ?_
  obtain rfl := List.mem_singleton.mp he
  exact typed_name rfl

theorem instances_signature :
    TypeTerm.Instances (fun _ => .char) signature.inputs [.con "Amount", .list .char] :=
  .cons (.con "Amount") (.cons (.list (.var "a")) .nil)

/-- The clause has the instance of its signature for lists of characters. -/
theorem clauseTyped : ClauseTyped (.strict setting.aliases) setting signature clause := by
  refine ⟨fun _ => .char, [.con "Amount", .list .char], .list .char, context,
    instances_signature, .list (.var "a"), by decide, .cons .var (.cons (.cons .var .var) .nil), ?_⟩
  have hrotate : Typed (.strict setting.aliases) setting context (.ofName "rotate")
      (.func (.con "Amount") (.func (.list .char) (.list .char))) :=
    .symbol (.signature rfl rfl instances_signature (.list (.var "a")))
  have hless : Typed (.strict setting.aliases) setting context
      (.binary (.arithmetic .sub) (.ofName "n") (literal 1)) (.con "Amount") :=
    .operation (typed_name rfl) (typed_literal 1) (.arithmetic ⟨"Int", by decide, rfl⟩)
  refine List.forall_mem_cons.mpr ⟨⟨?_, ?_⟩, List.forall_mem_singleton.mpr ⟨?_, ?_⟩⟩
  · exact .operation (typed_name rfl) (typed_literal 0) (.comparison .gt _)
  · exact .application (.application hrotate hless) typed_turned
  · exact .symbol (.unknown .bool ⟨rfl, rfl, rfl⟩ rfl)
  · exact .cons (typed_name rfl) (typed_name rfl)

end Rotation

end Rubric
