import Rubric.Typing.Ty

/-!
# Built-in names

Names that every program can use without declaring them. Each has a polymorphic type,
given as a type over the variables `0`, `1`, … and the number of those variables; a use
of the name takes that many new variables, one after the other.
-/

namespace Rubric

/-- A type that is polymorphic in its first variables. -/
structure Scheme where
  arity : Nat
  body : Ty

namespace Scheme

/-- The type with a given type for each of its variables. -/
def instantiate (scheme : Scheme) (types : List Ty) : Ty :=
  scheme.body.subst fun v => types.getD v.id (.tuple [])

def mono (body : Ty) : Scheme := ⟨0, body⟩

def a : Ty := .var ⟨0, none⟩

def b : Ty := .var ⟨1, none⟩

def c : Ty := .var ⟨2, none⟩

end Scheme

namespace Prelude

open Scheme in
def builtin? (name : String) : Option Scheme :=
  if name ∈ ["True", "False"] then
    some (.mono .bool)
  else if name ∈ ["+", "-", "*", "/", "^", "**", "div", "mod", "rem", "quot"] then
    some ⟨1, .curried [a, a] a⟩
  else if name ∈ ["==", "/=", "!=", "<", ">", "<=", ">="] then
    some ⟨1, .curried [a, a] .bool⟩
  else if name ∈ ["&&", "||"] then
    some (.mono (.curried [.bool, .bool] .bool))
  else if name = "not" then
    some (.mono (.func .bool .bool))
  else if name = "++" then
    some ⟨1, .curried [.list a, .list a] (.list a)⟩
  else if name = ":" then
    some ⟨1, .curried [a, .list a] (.list a)⟩
  else if name = "." then
    some ⟨3, .curried [.func b c, .func a b] (.func a c)⟩
  else
    none

end Prelude

end Rubric
