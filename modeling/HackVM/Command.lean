import HackVM.Segment

/-! # Commands

What an accepted instruction means.  Instructions fall into four families, each
with names of its own. -/
namespace HackVM

/-- Operations that replace the two topmost values by one. -/
inductive BinaryOp where
  | add
  | sub
  | and
  | or
deriving DecidableEq

/-- Operations that replace the topmost value. -/
inductive UnaryOp where
  | neg
  | not
deriving DecidableEq

/-- Comparisons of the two topmost values. -/
inductive Comparison where
  | eq
  | gt
  | lt
deriving DecidableEq

/-- The operations of the arithmetic family. -/
inductive Operation where
  | binary (op : BinaryOp)
  | unary (op : UnaryOp)
  | compare (comparison : Comparison)
deriving DecidableEq

namespace Operation

/-- The name of an operation in source text. -/
def name : Operation → String
  | .binary .add => "add"
  | .binary .sub => "sub"
  | .binary .and => "and"
  | .binary .or => "or"
  | .unary .neg => "neg"
  | .unary .not => "not"
  | .compare .eq => "eq"
  | .compare .gt => "gt"
  | .compare .lt => "lt"

/-- Every operation. -/
def all : List Operation :=
  [.binary .add, .binary .sub, .binary .and, .binary .or, .unary .neg, .unary .not,
    .compare .eq, .compare .gt, .compare .lt]

/-- The operation of a name. -/
def ofName? (name : String) : Option Operation := all.find? fun op => op.name = name

end Operation

/-- An instruction that has been read and checked. -/
inductive Command where
  | push (segment : Segment) (index : Nat)
  | pop (segment : Segment) (index : Nat)
  | operate (operation : Operation)
  | label (name : String)
  | goto (name : String)
  | ifGoto (name : String)
  | function (name : String) (locals : Nat)
  | call (name : String) (arguments : Nat)
  | ret
deriving DecidableEq

/-- The families of instructions. -/
inductive Family where
  /-- The family without instructions. -/
  | empty
  | stack
  | arithmetic
  | flow
  | function
deriving DecidableEq

namespace Family

/-- The names of the instructions of a family. -/
def names : Family → List String
  | .empty => []
  | .stack => ["push", "pop"]
  | .arithmetic => Operation.all.map Operation.name
  | .flow => ["label", "goto", "if-goto"]
  | .function => ["function", "call", "return"]

/-- Whether a family has an instruction of that name. -/
def recognizes (f : Family) (name : String) : Bool := f.names.contains name

/-- The families, in the order in which an instruction is offered to them. -/
def all : List Family := [.stack, .arithmetic, .flow, .function]

/-- The family of an instruction name. -/
def ofName? (name : String) : Option Family := all.find? fun f => f.recognizes name

end Family
end HackVM
