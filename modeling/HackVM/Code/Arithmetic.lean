import HackVM.Asm.Line
import HackVM.Command

/-! # Code of the arithmetic instructions

Operations work in place on the topmost cells.  A comparison leaves all bits set
for true and none for false.  The difference of two words can overflow when their
signs differ, so it is formed only when they agree; otherwise the sign of the
left operand decides. -/
namespace HackVM.Code

open Asm

/-- The machine's computation of a binary operation, with the right operand in
`D` and the left one in `M`. -/
def binaryComp : BinaryOp → Comp
  | .add => .dPlusM
  | .sub => .mMinusD
  | .and => .dAndM
  | .or => .dOrM

/-- The machine's computation of a unary operation on `M`. -/
def unaryComp : UnaryOp → Comp
  | .neg => .negM
  | .not => .notM

/-- The jump on the difference of two operands that a comparison makes when it
holds. -/
def compareJump : Comparison → Jump
  | .eq => .eq
  | .gt => .gt
  | .lt => .lt

/-- Code that makes the top of the stack addressable as `M`. -/
def atTop : List Line := [loadRegister .sp, .store .a .mMinusOne]

/-- Code of the comparison with a given number in a module. -/
def compare (comparison : Comparison) (module : String) (number : Nat) : List Line :=
  let leftNegative := Symbol.compare module .leftNegative number
  let sameSign := Symbol.compare module .sameSign number
  let decided := Symbol.compare module .decide number
  let finish := Symbol.compare module .finish number
  popD
    -- the right operand
    ++ [loadRegister .r13, .store .m .d]
    -- the left operand
    ++ atTop ++ [.store .d .m]
    ++ [load leftNegative, .jump .d .lt]
    ++ [loadRegister .r13, .store .d .m, load sameSign, .jump .d .ge]
    -- left not negative, right negative
    ++ [.store .d .one, load decided, .jump .zero .always]
    ++ [.label leftNegative]
    ++ [loadRegister .r13, .store .d .m, load sameSign, .jump .d .lt]
    -- left negative, right not negative
    ++ [.store .d .minusOne, load decided, .jump .zero .always]
    ++ [.label sameSign]
    ++ [loadRegister .r13, .store .d .m] ++ atTop ++ [.store .d .mMinusD]
    ++ [.label decided]
    ++ atTop ++ [.store .m .minusOne]
    ++ [load finish, .jump .d (compareJump comparison)]
    ++ atTop ++ [.store .m .zero]
    ++ [.label finish]

/-- Code of a binary operation. -/
def binary (op : BinaryOp) : List Line := popD ++ atTop ++ [.store .m (binaryComp op)]

/-- Code of a unary operation. -/
def unary (op : UnaryOp) : List Line := atTop ++ [.store .m (unaryComp op)]

end HackVM.Code
