import Rubric.Codec.Expression
import Rubric.Proofs.Codec.Terms

/-!
# Layouts of expressions and patterns

Expressions and the payloads of their forms are records, so that they can be written as rows.
Literals, operations and patterns have fields of their own, to which keys can only be added.
-/

namespace Rubric

open Decoder (reads_string reads_boolean reads_number)

open Fields (takes_pure takes_required)

namespace Operator

/-- The member for the operator, which the single operator of its family does not need. -/
def layoutMembers : Operator → List Member
  | concat => []
  | operator => [.required "operator" (.leaf (.string operator.text))]

theorem plain_layoutMembers (operator : Operator) :
    Layout.plainMembers operator.layoutMembers = operator.member := by
  cases operator <;> simp [layoutMembers, member, Layout.plainMembers, Layout.plain]

end Operator

namespace Expression

mutual

def layout : Expression → Layout
  | primitive p => .object .record [.required "body" (.tagged "Primitive" (layoutPrimitive p))]
  | operation o => .object .record [.required "body" (.tagged "Operation" (layoutOperation o))]
  | tuple elements =>
      .object .record [.required "body" (.tagged "Tuple" (.object .record
        [.required "elements" (.row (layoutAll elements))]))]
  | conditional condition yes no =>
      .object .record [.required "body" (.tagged "IfThenElse" (.object .record
        [.required "condition" condition.layout, .required "then" yes.layout,
          .required "else" no.layout]))]
  | cons head tail =>
      .object .record [.required "body" (.tagged "Cons" (.object .record
        [.required "head" head.layout, .required "tail" tail.layout]))]
  | data name fields =>
      .object .record [.required "body" (.tagged "Data" (.object .record
        [.required "name" name.layout, .required "contents" (.row (layoutFields fields))]))]
  | composition left right =>
      .object .record [.required "body" (.tagged "Composition" (.object .record
        [.required "left" left.layout, .required "right" right.layout]))]
  | lambda parameters body =>
      .object .record [.required "body" (.tagged "Lambda" (.object .record
        [.required "parameters" (.row (layoutPatterns parameters)),
          .required "body" body.layout]))]
  | application f argument =>
      .object .record [.required "body" (.tagged "Application" (.object .record
        [.required "function" f.layout, .required "parameter" argument.layout]))]
  | infixed operator left right =>
      .object .record [.required "body" (.tagged "InfixApplication" (.object .record
        [.required "operator" operator.layout, .required "left" left.layout,
          .required "right" right.layout]))]

def layoutField : FieldExpression → Layout
  | ⟨name, value⟩ =>
      .object .record [.required "name" name.layout, .required "expression" value.layout]

def layoutPrimitive : Primitive → Layout
  | .number kind value loc =>
      .variant "Number" [.required "numericType" (.leaf (.string kind)),
        .required "value" (.number value), loc.member]
  | .boolean value loc =>
      .variant "Boolean" [.required "value" (.leaf (.bool value)), loc.member]
  | .char value loc => .variant "Char" [.required "value" (.leaf (.string value)), loc.member]
  | .string value loc =>
      .variant "String" [.required "value" (.leaf (.string value)), loc.member]
  | .null loc => .variant "Null" [loc.member]
  | .undefined loc => .variant "Undefined" [loc.member]
  | .symbol s => .tagged "Symbol" s.layout
  | .list elements loc =>
      .variant "List" [.required "elements" (.row (layoutAll elements)), loc.member]

def layoutOperation : Operation → Layout
  | ⟨operator, left, right, loc⟩ =>
      .variant operator.family (operator.layoutMembers ++
        [.required "left" left.layout, .required "right" right.layout, loc.member])

def layoutPattern : Pattern → Layout
  | .wildcard => .leaf (.string "Wildcard")
  | .literal p => .tagged "Literal" (layoutPrimitive p)
  | .var s => .tagged "Variable" s.layout
  | .constructor name patterns =>
      .variant "Constructor" [.required "name" (.leaf (.string name)),
        .required "patterns" (.row (layoutPatterns patterns))]
  | .list elements => .variant "List" [.required "elements" (.row (layoutPatterns elements))]
  | .cons head tail =>
      .variant "Cons" [.required "head" (layoutPattern head),
        .required "tail" (layoutPattern tail)]
  | .as whole pattern =>
      .variant "As" [.required "alias" (layoutPattern whole),
        .required "pattern" (layoutPattern pattern)]
  | .tuple elements => .variant "Tuple" [.required "elements" (.row (layoutPatterns elements))]

def layoutAll : List Expression → List Layout
  | [] => []
  | e :: rest => e.layout :: layoutAll rest

def layoutFields : List FieldExpression → List Layout
  | [] => []
  | f :: rest => layoutField f :: layoutFields rest

def layoutPatterns : List Pattern → List Layout
  | [] => []
  | p :: rest => layoutPattern p :: layoutPatterns rest

end

/-! ## Plain layouts are encodings -/

mutual

@[simp] theorem plain_layout : (e : Expression) → e.layout.plain = e.encode
  | primitive p => by
      simp [layout, encode, Layout.plain, Layout.plainMembers, plain_layoutPrimitive p]
  | operation o => by
      simp [layout, encode, Layout.plain, Layout.plainMembers, plain_layoutOperation o]
  | tuple elements => by
      simp [layout, encode, Layout.plain, Layout.plainMembers, plain_layoutAll elements]
  | conditional condition yes no => by
      simp [layout, encode, Layout.plain, Layout.plainMembers, plain_layout condition,
        plain_layout yes, plain_layout no]
  | cons head tail => by
      simp [layout, encode, Layout.plain, Layout.plainMembers, plain_layout head,
        plain_layout tail]
  | data name fields => by
      simp [layout, encode, Layout.plain, Layout.plainMembers, plain_layoutFields fields]
  | composition left right => by
      simp [layout, encode, Layout.plain, Layout.plainMembers, plain_layout left,
        plain_layout right]
  | lambda parameters body => by
      simp [layout, encode, Layout.plain, Layout.plainMembers, plain_layoutPatterns parameters,
        plain_layout body]
  | application f argument => by
      simp [layout, encode, Layout.plain, Layout.plainMembers, plain_layout f,
        plain_layout argument]
  | infixed operator left right => by
      simp [layout, encode, Layout.plain, Layout.plainMembers, plain_layout left,
        plain_layout right]

theorem plain_layoutField : (f : FieldExpression) → (layoutField f).plain = encodeField f
  | ⟨name, value⟩ => by
      simp [layoutField, encodeField, Layout.plain, Layout.plainMembers, plain_layout value]

theorem plain_layoutPrimitive : (p : Primitive) → (layoutPrimitive p).plain = encodePrimitive p
  | .number .. | .boolean .. | .char .. | .string .. | .null .. | .undefined .. | .symbol .. => by
      simp [layoutPrimitive, encodePrimitive, Layout.plain, Layout.plainMembers]
  | .list elements _ => by
      simp [layoutPrimitive, encodePrimitive, Layout.plain, Layout.plainMembers,
        plain_layoutAll elements]

theorem plain_layoutOperation : (o : Operation) → (layoutOperation o).plain = encodeOperation o
  | ⟨operator, left, right, loc⟩ => by
      simp [layoutOperation, encodeOperation, Layout.plainMembers, Layout.plainMembers_append,
        operator.plain_layoutMembers, plain_layout left, plain_layout right]

theorem plain_layoutPattern : (p : Pattern) → (layoutPattern p).plain = encodePattern p
  | .wildcard => by
      simp [layoutPattern, encodePattern, Layout.plain]
  | .literal p => by
      simp [layoutPattern, encodePattern, plain_layoutPrimitive p]
  | .var s => by
      simp [layoutPattern, encodePattern]
  | .constructor name patterns => by
      simp [layoutPattern, encodePattern, Layout.plain, Layout.plainMembers,
        plain_layoutPatterns patterns]
  | .list elements => by
      simp [layoutPattern, encodePattern, Layout.plain, Layout.plainMembers,
        plain_layoutPatterns elements]
  | .cons head tail => by
      simp [layoutPattern, encodePattern, Layout.plainMembers, plain_layoutPattern head,
        plain_layoutPattern tail]
  | .as whole pattern => by
      simp [layoutPattern, encodePattern, Layout.plainMembers, plain_layoutPattern whole,
        plain_layoutPattern pattern]
  | .tuple elements => by
      simp [layoutPattern, encodePattern, Layout.plain, Layout.plainMembers,
        plain_layoutPatterns elements]

theorem plain_layoutAll : (es : List Expression) →
    Layout.plainAll (layoutAll es) = encodeAll es
  | [] => by
      rw [layoutAll, Layout.plainAll, encodeAll]
  | e :: rest => by
      rw [layoutAll, Layout.plainAll, encodeAll, plain_layout e, plain_layoutAll rest]

theorem plain_layoutFields : (fs : List FieldExpression) →
    Layout.plainAll (layoutFields fs) = encodeFields fs
  | [] => by
      rw [layoutFields, Layout.plainAll, encodeFields]
  | f :: rest => by
      rw [layoutFields, Layout.plainAll, encodeFields, plain_layoutField f,
        plain_layoutFields rest]

theorem plain_layoutPatterns : (ps : List Pattern) →
    Layout.plainAll (layoutPatterns ps) = encodePatterns ps
  | [] => by
      rw [layoutPatterns, Layout.plainAll, encodePatterns]
  | p :: rest => by
      rw [layoutPatterns, Layout.plainAll, encodePatterns, plain_layoutPattern p,
        plain_layoutPatterns rest]

end

theorem layoutAll_eq_map (es : List Expression) : layoutAll es = es.map layout := by
  induction es with
  | nil => rw [layoutAll, List.map_nil]
  | cons e rest ih => rw [layoutAll, ih, List.map_cons]

theorem layoutFields_eq_map (fs : List FieldExpression) :
    layoutFields fs = fs.map layoutField := by
  induction fs with
  | nil => rw [layoutFields, List.map_nil]
  | cons f rest ih => rw [layoutFields, ih, List.map_cons]

theorem layoutPatterns_eq_map (ps : List Pattern) :
    layoutPatterns ps = ps.map layoutPattern := by
  induction ps with
  | nil => rw [layoutPatterns, List.map_nil]
  | cons p rest ih => rw [layoutPatterns, ih, List.map_cons]

/-! ## One level -/

section Levels

variable {limit : Nat} {expression : Decoder Expression} {pattern : Decoder Pattern}

theorem reads_primitiveOf (h : ∀ e : Expression, expression.Reads limit e.layout e)
    (p : Primitive) : (primitiveOf expression).Reads (limit + 1) (layoutPrimitive p) p := by
  cases p with
  | number kind value loc =>
      have hkind := takes_required (reads_string limit kind) "numericType"
      have hvalue := takes_required (reads_number limit value) "value"
      rw [layoutPrimitive]
      exact .fields (((hkind.map Primitive.number).seq hvalue).seq (loc.takes limit))
        (of_decide_eq_true rfl) rfl
  | boolean value loc =>
      have hvalue := takes_required (reads_boolean limit value) "value"
      rw [layoutPrimitive]
      exact .fields ((hvalue.map Primitive.boolean).seq (loc.takes limit))
        (of_decide_eq_true rfl) rfl
  | char value loc =>
      have hvalue := takes_required (reads_string limit value) "value"
      rw [layoutPrimitive]
      exact .fields ((hvalue.map Primitive.char).seq (loc.takes limit))
        (of_decide_eq_true rfl) rfl
  | string value loc =>
      have hvalue := takes_required (reads_string limit value) "value"
      rw [layoutPrimitive]
      exact .fields ((hvalue.map Primitive.string).seq (loc.takes limit))
        (of_decide_eq_true rfl) rfl
  | null loc =>
      rw [layoutPrimitive]
      exact .fields ((loc.takes limit).map Primitive.null) (of_decide_eq_true rfl) rfl
  | undefined loc =>
      rw [layoutPrimitive]
      exact .fields ((loc.takes limit).map Primitive.undefined) (of_decide_eq_true rfl) rfl
  | symbol s =>
      rw [layoutPrimitive]
      exact .single ((s.reads limit).map Primitive.symbol) rfl
  | list elements loc =>
      have helements := takes_required (Decoder.Reads.sequence h elements) "elements"
      rw [layoutPrimitive, layoutAll_eq_map]
      exact .fields ((helements.map Primitive.list).seq (loc.takes limit))
        (of_decide_eq_true rfl) rfl

/-- An operator is read back from its text. -/
theorem reads_operatorOf {α : Type} {all : List α} {text : α → String} {operator : α}
    (hcase : Decoder.caseOf (all.map fun o => (text o, .bare o)) (text operator) =
      .ok (.bare operator)) :
    (operatorOf all text).Reads limit (.leaf (.string (text operator))) operator :=
  Decoder.reads_bare hcase

theorem takes_operandFields (h : ∀ e : Expression, expression.Reads limit e.layout e)
    {operatorFields : Fields Operator} {members : List Member} {operator : Operator}
    (hoperator : operatorFields.Takes limit members operator) (left right : Expression)
    (loc : Span) :
    (operandFields expression operatorFields).Takes limit
      (members ++ [.required "left" left.layout, .required "right" right.layout, loc.member])
      ⟨operator, left, right, loc⟩ := by
  have hleft := takes_required (h left) "left"
  have hright := takes_required (h right) "right"
  have hfields := (((hoperator.map Operation.mk).seq hleft).seq hright).seq (loc.takes limit)
  rw [List.append_assoc, List.append_assoc] at hfields
  exact hfields

theorem reads_operationOf (h : ∀ e : Expression, expression.Reads limit e.layout e)
    (o : Operation) : (operationOf expression).Reads (limit + 1) (layoutOperation o) o := by
  obtain ⟨operator, left, right, loc⟩ := o
  rw [layoutOperation]
  cases operator with
  | arithmetic operator =>
      have hread : arithmeticOperator.Reads limit (.leaf (.string operator.text)) operator :=
        reads_operatorOf (by cases operator <;> rfl)
      have hoperator := (takes_required hread "operator").map Operator.arithmetic
      exact .fields (takes_operandFields h hoperator left right loc) (of_decide_eq_true rfl) rfl
  | comparison operator =>
      have hread : comparisonOperator.Reads limit (.leaf (.string operator.text)) operator :=
        reads_operatorOf (by cases operator <;> rfl)
      have hoperator := (takes_required hread "operator").map Operator.comparison
      exact .fields (takes_operandFields h hoperator left right loc) (of_decide_eq_true rfl) rfl
  | logical operator =>
      have hread : logicalOperator.Reads limit (.leaf (.string operator.text)) operator :=
        reads_operatorOf (by cases operator <;> rfl)
      have hoperator := (takes_required hread "operator").map Operator.logical
      exact .fields (takes_operandFields h hoperator left right loc) (of_decide_eq_true rfl) rfl
  | bitwise operator =>
      have hread : bitwiseOperator.Reads limit (.leaf (.string operator.text)) operator :=
        reads_operatorOf (by cases operator <;> rfl)
      have hoperator := (takes_required hread "operator").map Operator.bitwise
      exact .fields (takes_operandFields h hoperator left right loc) (of_decide_eq_true rfl) rfl
  | concat =>
      have hoperator := takes_pure limit Operator.concat
      exact .fields (takes_operandFields h hoperator left right loc) (of_decide_eq_true rfl) rfl

theorem reads_patternOf (h : ∀ e : Expression, expression.Reads limit e.layout e)
    (hpattern : ∀ p : Pattern, pattern.Reads limit (layoutPattern p) p) (p : Pattern) :
    (patternOf expression pattern).Reads (limit + 1) (layoutPattern p) p := by
  cases p with
  | wildcard =>
      rw [layoutPattern]
      exact Decoder.reads_bare rfl
  | literal p =>
      have hliteral := (reads_primitiveOf h p).mono (Nat.le_succ limit)
      rw [layoutPattern]
      exact .single (hliteral.map Pattern.literal) rfl
  | var s =>
      rw [layoutPattern]
      exact .single ((s.reads limit).map Pattern.var) rfl
  | constructor name patterns =>
      have hname := takes_required (reads_string limit name) "name"
      have hpatterns := takes_required (Decoder.Reads.sequence hpattern patterns) "patterns"
      rw [layoutPattern, layoutPatterns_eq_map]
      exact .fields ((hname.map Pattern.constructor).seq hpatterns) (of_decide_eq_true rfl) rfl
  | list elements =>
      have helements := takes_required (Decoder.Reads.sequence hpattern elements) "elements"
      rw [layoutPattern, layoutPatterns_eq_map]
      exact .fields (helements.map Pattern.list) (of_decide_eq_true rfl) rfl
  | cons head tail =>
      have hhead := takes_required (hpattern head) "head"
      have htail := takes_required (hpattern tail) "tail"
      rw [layoutPattern]
      exact .fields ((hhead.map Pattern.cons).seq htail) (of_decide_eq_true rfl) rfl
  | as whole inner =>
      have hwhole := takes_required (hpattern whole) "alias"
      have hinner := takes_required (hpattern inner) "pattern"
      rw [layoutPattern]
      exact .fields ((hwhole.map Pattern.as).seq hinner) (of_decide_eq_true rfl) rfl
  | tuple elements =>
      have helements := takes_required (Decoder.Reads.sequence hpattern elements) "elements"
      rw [layoutPattern, layoutPatterns_eq_map]
      exact .fields (helements.map Pattern.tuple) (of_decide_eq_true rfl) rfl

theorem reads_fieldOf (h : ∀ e : Expression, expression.Reads limit e.layout e)
    (f : FieldExpression) : (fieldOf expression).Reads limit (layoutField f) f := by
  obtain ⟨name, value⟩ := f
  have hname := takes_required (name.reads limit) "name"
  have hvalue := takes_required (h value) "expression"
  rw [layoutField]
  exact .record ((hname.map FieldExpression.mk).seq hvalue) (of_decide_eq_true rfl) _

/-- A form that is read is also read with the record around it. -/
theorem reads_expressionOf {form : Decoder Expression} {layout : Layout} {e : Expression}
    (h : form.Reads limit layout e) :
    (expressionOf form).Reads limit (.object .record [.required "body" layout]) e :=
  .record (takes_required h "body") (of_decide_eq_true rfl) _

theorem reads_level (h : ∀ e : Expression, expression.Reads limit e.layout e)
    (hpattern : ∀ p : Pattern, pattern.Reads limit (layoutPattern p) p) (e : Expression) :
    (expressionOf (formOf expression pattern)).Reads (limit + 1) e.layout e := by
  cases e with
  | primitive p =>
      have hliteral := (reads_primitiveOf h p).mono (Nat.le_succ limit)
      rw [layout]
      exact reads_expressionOf (.single (hliteral.map primitive) rfl)
  | operation o =>
      have hoperation := (reads_operationOf h o).mono (Nat.le_succ limit)
      rw [layout]
      exact reads_expressionOf (.single (hoperation.map operation) rfl)
  | tuple elements =>
      have helements := takes_required (Decoder.Reads.sequence h elements) "elements"
      rw [layout, layoutAll_eq_map]
      exact reads_expressionOf
        (.single (.record (helements.map tuple) (of_decide_eq_true rfl) _) rfl)
  | conditional condition yes no =>
      have hcondition := takes_required (h condition) "condition"
      have hyes := takes_required (h yes) "then"
      have hno := takes_required (h no) "else"
      have hfields := ((hcondition.map conditional).seq hyes).seq hno
      rw [layout]
      exact reads_expressionOf (.single (.record hfields (of_decide_eq_true rfl) _) rfl)
  | cons head tail =>
      have hhead := takes_required (h head) "head"
      have htail := takes_required (h tail) "tail"
      have hfields := (hhead.map cons).seq htail
      rw [layout]
      exact reads_expressionOf (.single (.record hfields (of_decide_eq_true rfl) _) rfl)
  | data name fields =>
      have hname := takes_required (name.reads limit) "name"
      have hcontents := takes_required
        (Decoder.Reads.sequence (reads_fieldOf h) fields) "contents"
      have hfields := (hname.map data).seq hcontents
      rw [layout, layoutFields_eq_map]
      exact reads_expressionOf (.single (.record hfields (of_decide_eq_true rfl) _) rfl)
  | composition left right =>
      have hleft := takes_required (h left) "left"
      have hright := takes_required (h right) "right"
      have hfields := (hleft.map composition).seq hright
      rw [layout]
      exact reads_expressionOf (.single (.record hfields (of_decide_eq_true rfl) _) rfl)
  | lambda parameters body =>
      have hparameters := takes_required
        (Decoder.Reads.sequence hpattern parameters) "parameters"
      have hbody := takes_required (h body) "body"
      have hfields := (hparameters.map lambda).seq hbody
      rw [layout, layoutPatterns_eq_map]
      exact reads_expressionOf (.single (.record hfields (of_decide_eq_true rfl) _) rfl)
  | application f argument =>
      have hfunction := takes_required (h f) "function"
      have hargument := takes_required (h argument) "parameter"
      have hfields := (hfunction.map application).seq hargument
      rw [layout]
      exact reads_expressionOf (.single (.record hfields (of_decide_eq_true rfl) _) rfl)
  | infixed operator left right =>
      have hoperator := takes_required (operator.reads limit) "operator"
      have hleft := takes_required (h left) "left"
      have hright := takes_required (h right) "right"
      have hfields := ((hoperator.map infixed).seq hleft).seq hright
      rw [layout]
      exact reads_expressionOf (.single (.record hfields (of_decide_eq_true rfl) _) rfl)

end Levels

/-! ## All levels -/

theorem reads_within (levels : Nat) :
    (∀ e : Expression, (decoderWithin levels).Reads levels e.layout e) ∧
      ∀ p : Pattern, (patternDecoderWithin levels).Reads levels (layoutPattern p) p := by
  induction levels with
  | zero =>
      constructor
      · intro e reading json _ hadmits
        exact absurd hadmits.2 (Nat.not_lt_zero _)
      · intro p reading json _ hadmits
        exact absurd hadmits.2 (Nat.not_lt_zero _)
  | succ levels ih =>
      obtain ⟨hexpression, hpattern⟩ := ih
      constructor
      · intro e
        rw [decoderWithin]
        exact reads_level hexpression hpattern e
      · intro p
        rw [patternDecoderWithin]
        exact reads_patternOf hexpression hpattern p

theorem reads (limit : Nat) (e : Expression) : decoder.Reads limit e.layout e := by
  intro reading json hjson hadmits
  exact (reads_within _).1 e reading json hjson ⟨hadmits.1, Nat.lt_succ_of_le hadmits.1⟩

end Expression

namespace Pattern

def layout (p : Pattern) : Layout := Expression.layoutPattern p

@[simp] theorem plain_layout (p : Pattern) : p.layout.plain = p.encode :=
  Expression.plain_layoutPattern p

theorem reads (limit : Nat) (p : Pattern) : decoder.Reads limit p.layout p := by
  intro reading json hjson hadmits
  exact (Expression.reads_within _).2 p reading json hjson
    ⟨hadmits.1, Nat.lt_succ_of_le hadmits.1⟩

end Pattern

namespace Primitive

def layout (p : Primitive) : Layout := Expression.layoutPrimitive p

@[simp] theorem plain_layout (p : Primitive) : p.layout.plain = p.encode :=
  Expression.plain_layoutPrimitive p

theorem reads (limit : Nat) (p : Primitive) : decoder.Reads limit p.layout p :=
  (Expression.reads_primitiveOf (Expression.reads limit) p).mono (Nat.le_succ limit)

end Primitive

namespace Operation

def layout (o : Operation) : Layout := Expression.layoutOperation o

@[simp] theorem plain_layout (o : Operation) : o.layout.plain = o.encode :=
  Expression.plain_layoutOperation o

theorem reads (limit : Nat) (o : Operation) : decoder.Reads limit o.layout o :=
  (Expression.reads_operationOf (Expression.reads limit) o).mono (Nat.le_succ limit)

end Operation

end Rubric
