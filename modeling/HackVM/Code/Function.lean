import HackVM.Code.Stack

/-! # Code of jumps, functions, calls and returns

A jump loads its target and goes there, always or when the value popped from the stack is
not zero.

A call saves the return address and four registers above the arguments, so that
the frame of the called function is

    ARG -> the arguments
           the return address
           the saved LCL, ARG, THIS and THAT
    LCL -> the local variables

A return stores its value over the first argument, restores the registers in the
opposite order and jumps back. -/
namespace HackVM.Code

open Asm

/-- Code of a jump that is always taken. -/
def jumpTo (target : Symbol) : List Line := [load target, .jump .zero .always]

/-- Code of a jump that is taken when the value popped from the stack is not
zero. -/
def jumpIf (target : Symbol) : List Line := popD ++ [load target, .jump .d .ne]

/-- The registers that a call saves, in the order in which it saves them. -/
def savedRegisters : List Register := [.lcl, .arg, .this, .that]

/-- The number of cells between the arguments and the local variables. -/
def frameSize : Nat := 5

/-- Where the stack starts. -/
def stackBase : Nat := 256

/-- The function that a program starts with. -/
def entryFunction : String := "Sys.init"

/-- The scope of the code that calls the first function. -/
def startScope : String := "bootstrap"

/-- Code of a function's entry, which clears its local variables. -/
def function (name : String) (locals : Nat) : List Line :=
  .label (.entry name) :: (List.replicate locals (.store .d .zero :: pushD)).flatten

/-- Code that pushes a register. -/
def saveRegister (r : Register) : List Line := [loadRegister r, .store .d .m] ++ pushD

/-- Code of the call with a given number, made in a scope. -/
def call (name : String) (arguments : Int) (scope : String) (number : Nat) :
    Except Fault (List Line) := do
  let site := Symbol.returnSite scope number
  let depth ← numberOperand (arguments + frameSize)
  .ok ([load site, .store .d .a] ++ pushD
    ++ savedRegisters.flatMap saveRegister
    ++ [loadRegister .sp, .store .d .m, .address depth, .store .d .dMinusA,
      loadRegister .arg, .store .m .d]
    ++ [loadRegister .sp, .store .d .m, loadRegister .lcl, .store .m .d]
    ++ jumpTo (.entry name)
    ++ [.label site])

/-- Code that restores a register from the frame, of which `R13` holds the address
one above the saved value. -/
def restoreRegister (r : Register) : List Line :=
  [loadRegister .r13, .store .am .mMinusOne, .store .d .m, loadRegister r, .store .m .d]

/-- Code of a return. -/
def ret : List Line :=
  [loadRegister .lcl, .store .d .m, loadRegister .r13, .store .m .d]
    ++ [loadNumber frameSize, .store .a .dMinusA, .store .d .m, loadRegister .r14, .store .m .d]
    ++ popD ++ [loadRegister .arg, .store .a .m, .store .m .d]
    ++ [loadRegister .arg, .store .d .mPlusOne, loadRegister .sp, .store .m .d]
    ++ savedRegisters.reverse.flatMap restoreRegister
    ++ [loadRegister .r14, .store .a .m, .jump .zero .always]

/-- Code that sets up the stack. -/
def startStack : List Line :=
  [loadNumber stackBase, .store .d .a, loadRegister .sp, .store .m .d]

end HackVM.Code
