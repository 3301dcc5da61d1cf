import HackVM.Asm.Line
import HackVM.Fault

/-! # Code of the stack instructions

A push loads the value of a cell and puts it on the stack; a pop takes the top of
the stack into a cell.  The cells of a base segment lie at an address that is
computed when the code runs, so a pop keeps that address in a scratch register.
Indices are whole numbers here, since nothing in the code depends on the checks
that a source instruction has passed. -/
namespace HackVM.Code

open Asm

/-- The register that holds the address of a base segment. -/
def baseRegister : BaseSegment → Register
  | .locals => .lcl
  | .arguments => .arg
  | .this => .this
  | .that => .that

/-- The register that is a cell of the `pointer` segment. -/
def pointerRegister (index : Int) : Except Fault Register :=
  if index = 0 then .ok .this
  else if index = 1 then .ok .that
  else .error (.noPointerRegister index)

/-- A number as the operand of an address instruction, if it can be written. -/
def numberOperand (n : Int) : Except Fault Operand :=
  if Text.isWritable n then .ok (.number n) else .error .numberTooLarge

/-- The operand of a static variable, if its index can be written. -/
def staticOperand (module : String) (index : Int) : Except Fault Operand :=
  if Text.isWritable index then .ok (.symbol (.static module index)) else .error .numberTooLarge

/-- Code that loads a cell of a segment into `D`. -/
def fetch (segment : Segment) (index : Int) (module : String) : Except Fault (List Line) :=
  match segment with
  | .constant => do
    let operand ← numberOperand index
    .ok [.address operand, .store .d .a]
  | .base b => do
    let operand ← numberOperand index
    .ok [.address operand, .store .d .a, loadRegister (baseRegister b), .store .a .dPlusM,
      .store .d .m]
  | .pointer => do
    let register ← pointerRegister index
    .ok [loadRegister register, .store .d .m]
  | .temp => do
    let operand ← numberOperand (Segment.tempBase + index)
    .ok [.address operand, .store .d .m]
  | .static => do
    let operand ← staticOperand module index
    .ok [.address operand, .store .d .m]

/-- Code that pushes a cell of a segment. -/
def push (segment : Segment) (index : Int) (module : String) : Except Fault (List Line) :=
  (· ++ pushD) <$> fetch segment index module

/-- Code that takes the top of the stack into a cell with a fixed address. -/
def popInto (operand : Operand) : List Line := popD ++ [.address operand, .store .m .d]

/-- Code that pops into a cell of a segment. -/
def pop (segment : Segment) (index : Int) (module : String) : Except Fault (List Line) :=
  match segment with
  | .constant => .error .constantHasNoCell
  | .base b => do
    let operand ← numberOperand index
    .ok ([.address operand, .store .d .a, loadRegister (baseRegister b), .store .d .dPlusM,
      loadRegister .r13, .store .m .d] ++ popD
      ++ [loadRegister .r13, .store .a .m, .store .m .d])
  | .pointer => (fun register => popInto (.symbol (.register register))) <$> pointerRegister index
  | .temp => popInto <$> numberOperand (Segment.tempBase + index)
  | .static => popInto <$> staticOperand module index

end HackVM.Code
