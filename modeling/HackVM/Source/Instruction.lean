import HackVM.Text.Lines

/-! # Instructions

An instruction is what one line of source says: a name and its arguments, with
the number of the line.  Nothing about the name or the arguments is checked
here. -/
namespace HackVM

/-- One instruction of a source module, not yet checked. -/
structure Instruction where
  /-- The number of the source line, counted from one. -/
  line : Int
  name : String
  arguments : List String
deriving DecidableEq

namespace Instruction

/-- The instruction as one line of text, with single spaces. -/
def text (i : Instruction) : String := Text.join " " (i.name :: i.arguments)

/-- The argument at a position.  Positions count from zero, and negative ones
count back from the end. -/
def argument? (i : Instruction) (position : Int) : Option String :=
  match position with
  | .ofNat n => i.arguments[n]?
  | .negSucc n => i.arguments.reverse[n]?

end Instruction
end HackVM
