/-!
# Built-in binary operators

Operators come in five families that differ in what they accept and give back. Each
family of named operators lists its members in a fixed order together with their
written text; reading an operator is the inverse of writing it.
-/

namespace Rubric

/-- Operators on two numbers of one kind. -/
inductive ArithmeticOperator where
  | add | sub | mul | div | mod | pow
deriving DecidableEq, Repr, Inhabited

/-- Operators that compare two values of one type. -/
inductive ComparisonOperator where
  | eq | notEq | lt | gt | ltEq | gtEq
deriving DecidableEq, Repr, Inhabited

/-- Operators on two truth values. -/
inductive LogicalOperator where
  | and | or
deriving DecidableEq, Repr, Inhabited

/-- Operators on two integers, taken as bit strings. -/
inductive BitwiseOperator where
  | and | or | xor | shiftLeft | shiftRight
deriving DecidableEq, Repr, Inhabited

namespace ArithmeticOperator

def all : List ArithmeticOperator := [add, sub, mul, div, mod, pow]

def text : ArithmeticOperator → String
  | add => "+"
  | sub => "-"
  | mul => "*"
  | div => "/"
  | mod => "%"
  | pow => "**"

end ArithmeticOperator

namespace ComparisonOperator

def all : List ComparisonOperator := [eq, notEq, lt, gt, ltEq, gtEq]

def text : ComparisonOperator → String
  | eq => "=="
  | notEq => "!="
  | lt => "<"
  | gt => ">"
  | ltEq => "<="
  | gtEq => ">="

end ComparisonOperator

namespace LogicalOperator

def all : List LogicalOperator := [and, or]

def text : LogicalOperator → String
  | and => "&&"
  | or => "||"

end LogicalOperator

namespace BitwiseOperator

def all : List BitwiseOperator := [and, or, xor, shiftLeft, shiftRight]

def text : BitwiseOperator → String
  | and => "&"
  | or => "|"
  | xor => "^"
  | shiftLeft => "<<"
  | shiftRight => ">>"

end BitwiseOperator

/-- An operator together with its family. Joining has a family of its own and a
single operator. -/
inductive Operator where
  | arithmetic (operator : ArithmeticOperator)
  | comparison (operator : ComparisonOperator)
  | logical (operator : LogicalOperator)
  | bitwise (operator : BitwiseOperator)
  | concat
deriving DecidableEq, Repr, Inhabited

namespace Operator

def text : Operator → String
  | arithmetic operator => operator.text
  | comparison operator => operator.text
  | logical operator => operator.text
  | bitwise operator => operator.text
  | concat => "++"

end Operator

end Rubric
