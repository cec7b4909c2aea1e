import Rubric.Syntax.Location

/-!
# Written type terms

The types that signatures, aliases and records mention, exactly as they were written.
Terms, class constraints and data cases refer to each other, so the three types and
every function on them come as one mutual family.
-/

namespace Rubric

mutual

/-- A type as it stands in a declaration. -/
inductive TypeTerm where
  /-- A type variable. -/
  | var (name : String)
  /-- A type constructor or alias name. -/
  | con (name : String)
  /-- A class constraint in the place of a type. -/
  | constraint (constraint : Constraint)
  /-- A type under a context of class constraints. -/
  | qualified (context : List Constraint) (body : TypeTerm)
  /-- A function of several inputs. -/
  | arrow (inputs : List TypeTerm) (output : TypeTerm)
  /-- A type constructor applied to arguments. -/
  | apply (base : TypeTerm) (args : List TypeTerm)
  | list (element : TypeTerm)
  | tuple (elements : List TypeTerm)
  /-- An inline data type with its constructors. -/
  | data (name : String) (cases : List DataCase)
  /-- A type that depends on a condition. -/
  | conditional (condition yes no : TypeTerm)

/-- A class applied to its parameters. -/
structure Constraint where
  className : String
  params : List TypeTerm

/-- One constructor of an inline data type. -/
structure DataCase where
  name : String
  fields : List TypeTerm

end

deriving instance BEq for TypeTerm, Constraint, DataCase
deriving instance Repr for TypeTerm, Constraint, DataCase
deriving instance Inhabited for TypeTerm, Constraint, DataCase

end Rubric
