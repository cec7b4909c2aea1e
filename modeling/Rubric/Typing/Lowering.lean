import Rubric.Data.Table
import Rubric.Syntax.Program
import Rubric.Typing.Ty

/-!
# From written types to types

Lowering turns a written type into a type with numbered variables. Variables written
with the same name share one number within a single use of a declaration, and each use
takes new numbers. Contexts of class constraints and the constructors of inline data
types leave no trace, and a conditional type becomes a variable of its own.
-/

namespace Rubric

/-- The numbers given to written variables so far, and the next free number. -/
structure Naming where
  names : Table String TypeVar := {}
  next : Nat := 0

namespace Naming

def fresh : StateM Naming TypeVar := do
  let naming ← get
  set { naming with next := naming.next + 1 }
  pure ⟨naming.next, none⟩

/-- The variable of a written name, numbered at its first use. -/
def named (name : String) : StateM Naming TypeVar := do
  let naming ← get
  match naming.names.get? name with
  | some v => pure v
  | none =>
      let v : TypeVar := ⟨naming.next, some name⟩
      set ({ names := naming.names.insert name v, next := naming.next + 1 } : Naming)
      pure v

end Naming

namespace TypeTerm

mutual

def lower : TypeTerm → StateM Naming Ty
  | var name => do
      let v ← Naming.named name
      pure (.var v)
  | con name => pure (.con name)
  | constraint ⟨className, params⟩ => do
      let args ← lowerAll params
      pure (.app (.con className) args)
  | qualified _ body => body.lower
  | arrow inputs output => do
      let inputs ← lowerAll inputs
      let output ← output.lower
      pure (.curried inputs output)
  | apply base args => do
      let base ← base.lower
      let args ← lowerAll args
      pure (.app base args)
  | list element => do
      let element ← element.lower
      pure (.list element)
  | tuple elements => do
      let elements ← lowerAll elements
      pure (.tuple elements)
  | data name _ => pure (.con name)
  | conditional _ _ _ => do
      let v ← Naming.fresh
      pure (.var v)

def lowerAll : List TypeTerm → StateM Naming (List Ty)
  | [] => pure []
  | term :: rest => do
      let t ← term.lower
      let ts ← lowerAll rest
      pure (t :: ts)

end

end TypeTerm

namespace Signature

def lower (signature : Signature) : StateM Naming (List Ty × Ty) := do
  let inputs ← TypeTerm.lowerAll signature.inputs
  let output ← signature.output.lower
  pure (inputs, output)

end Signature

end Rubric
