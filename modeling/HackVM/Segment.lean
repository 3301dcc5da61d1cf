import HackVM.Text.Numeral

/-! # Memory segments

The eight segments that a stack instruction may name, and the indices that are
allowed in them.  Four segments lie in memory at an address that a register
holds; the others have a place of their own. -/
namespace HackVM

/-- A segment that starts at the address held by a base register. -/
inductive BaseSegment where
  | locals
  | arguments
  | this
  | that
deriving DecidableEq

/-- A memory segment. -/
inductive Segment where
  | constant
  | base (segment : BaseSegment)
  | pointer
  | temp
  | static
deriving DecidableEq

/-- Why an index is refused for a segment. -/
inductive IndexProblem where
  | popConstant
  | constantTooLarge (index : Nat)
  | pointerRange (index : Nat)
  | tempRange (index : Nat)
deriving DecidableEq

namespace Segment

/-- The name of a segment in source text. -/
def name : Segment → String
  | .constant => "constant"
  | .base .locals => "local"
  | .base .arguments => "argument"
  | .base .this => "this"
  | .base .that => "that"
  | .pointer => "pointer"
  | .temp => "temp"
  | .static => "static"

/-- Every segment. -/
def all : List Segment :=
  [.constant, .base .locals, .base .arguments, .base .this, .base .that, .pointer, .temp, .static]

/-- The segment of a name. -/
def ofName? (name : String) : Option Segment := all.find? fun s => s.name = name

/-- The address of the first cell of the `temp` segment. -/
def tempBase : Nat := 5

/-- The number of cells of the `temp` segment. -/
def tempSize : Nat := 8

/-- The largest number that an address instruction can load. -/
def maxConstant : Nat := 0x7FFF

/-- What is wrong with an index of a segment, if anything is.  `pop` says that the
instruction is spelled as a pop. -/
def indexProblem? (pop : Bool) : Segment → Nat → Option IndexProblem
  | .constant, index =>
    if pop then some .popConstant
    else if index > maxConstant then some (.constantTooLarge index)
    else none
  | .base _, _ => none
  | .pointer, index => if index < 2 then none else some (.pointerRange index)
  | .temp, index => if index < tempSize then none else some (.tempRange index)
  | .static, _ => none

end Segment

/-- The wording of an index problem. -/
def IndexProblem.message : IndexProblem → String
  | .popConstant => "cannot pop into the constant segment"
  | .constantTooLarge index => "constant " ++ Text.decimal index ++ " does not fit in 15 bits"
  | .pointerRange index => "pointer index must be 0 or 1, got " ++ Text.decimal index
  | .tempRange index => "temp index must be 0..7, got " ++ Text.decimal index

end HackVM
