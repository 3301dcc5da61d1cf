import HackVM.Symbol

/-! # Scopes of labels

A label belongs to the function in whose body it stands, or to the module when it
stands before the first function. -/
namespace HackVM

/-- Where a label would be declared now: in a function, if one has begun. -/
structure Scope where
  function : Option String
deriving DecidableEq

namespace Scope

/-- The scope at the start of a module. -/
def outer : Scope := ⟨none⟩

/-- The name of a scope inside a module: that of the function, unless there is
none or its name is empty. -/
def name (s : Scope) (module : String) : String :=
  match s.function with
  | none => module
  | some f => if f = "" then module else f

/-- The symbol of a source label. -/
def label (s : Scope) (name module : String) : Symbol := .label (s.name module) name

end Scope
end HackVM
