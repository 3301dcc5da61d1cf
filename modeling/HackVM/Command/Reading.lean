import HackVM.Command
import HackVM.Fault
import HackVM.Source.Instruction
import HackVM.Symbol

/-! # Reading commands from instructions

The checks on an instruction, in the order in which they are made: the name, the
number of arguments, the first argument, then the index.  The first check that
fails decides the diagnostic. -/
namespace HackVM

/-- The segment of a name that stands by itself. -/
def Segment.ofName (name : String) : Except Fault Segment :=
  match ofName? name with
  | some segment => .ok segment
  | none => .error (.refused ⟨.unknownSegmentName name, none, none⟩)

namespace Instruction

/-- Positions lie below this limit, and not below its negative. -/
def positionLimit : Int := 0x8000000000000000

/-- The argument at a position, which must be in range and have one. -/
def argument (i : Instruction) (position : Int) : Except Fault String :=
  if position < -positionLimit || positionLimit ≤ position then .error .positionTooLarge
  else
    match i.argument? position with
    | some a => .ok a
    | none => .error .noSuchArgument

/-- The diagnostic of a cause that lies in an instruction. -/
def refuse (i : Instruction) (cause : Cause) : Fault := .refused ⟨cause, some i.line, none⟩

/-- The fault of an instruction that should have `count` arguments and has not. -/
def countFault (i : Instruction) (count : Int) : Fault :=
  i.refuse (.argumentCount i.name count i.arguments.length i.text)

/-- Succeeds when the instruction has `count` arguments. -/
def expectCount (i : Instruction) (count : Int) : Except Fault Unit :=
  if i.arguments.length = count then .ok () else .error (i.countFault count)

/-- The number that an argument denotes: one or more ASCII digits, no more than
the limit, leading zeros included. -/
def readIndex (i : Instruction) (argument : String) : Except Fault Nat :=
  if Text.isNumeral argument then
    if argument.length ≤ Text.digitLimit then .ok (Text.numeralValue argument)
    else .error (.numeralTooLong argument.length)
  else .error (i.refuse (.malformedIndex argument i.text))

/-- An argument that may name a label or a function. -/
def readSymbol (i : Instruction) (argument : String) : Except Fault String :=
  if isSymbolName argument then .ok argument
  else .error (i.refuse (.invalidSymbol argument i.text))

/-- The segment that an argument names. -/
def readSegment (i : Instruction) (argument : String) : Except Fault Segment :=
  match Segment.ofName? argument with
  | some segment => .ok segment
  | none => .error (i.refuse (.unknownSegment argument i.text))

end Instruction

namespace Command

/-- The command of a stack instruction.  Any name but `push` is a pop. -/
def ofStack (i : Instruction) : Except Fault Command :=
  match i.arguments with
  | [segmentName, indexText] => do
    let segment ← i.readSegment segmentName
    let index ← i.readIndex indexText
    match segment.indexProblem? (i.name = "pop") index with
    | some problem => .error (i.refuse (.invalidIndex problem i.text))
    | none => if i.name = "push" then .ok (.push segment index) else .ok (.pop segment index)
  | _ => .error (i.countFault 2)

/-- The command of an arithmetic instruction. -/
def ofArithmetic (i : Instruction) : Except Fault Command :=
  match i.arguments with
  | [] =>
    match Operation.ofName? i.name with
    | some operation => .ok (.operate operation)
    | none => .error (.unknownOperation i.name)
  | _ => .error (i.countFault 0)

/-- The command of a flow instruction.  Any name but `label` and `goto` is a
conditional jump. -/
def ofFlow (i : Instruction) : Except Fault Command :=
  match i.arguments with
  | [nameText] => do
    let name ← i.readSymbol nameText
    if i.name = "label" then .ok (.label name)
    else if i.name = "goto" then .ok (.goto name)
    else .ok (.ifGoto name)
  | _ => .error (i.countFault 1)

/-- The command of a function instruction.  Any name but `return` and `function`
is a call. -/
def ofFunction (i : Instruction) : Except Fault Command :=
  if i.name = "return" then
    match i.arguments with
    | [] => .ok .ret
    | _ => .error (i.countFault 0)
  else
    match i.arguments with
    | [nameText, countText] => do
      let name ← i.readSymbol nameText
      let count ← i.readIndex countText
      if i.name = "function" then .ok (.function name count) else .ok (.call name count)
    | _ => .error (i.countFault 2)

/-- The command of an instruction, read as one of a family. -/
def ofFamily (f : Family) (i : Instruction) : Except Fault Command :=
  match f with
  | .empty => .error .noCode
  | .stack => ofStack i
  | .arithmetic => ofArithmetic i
  | .flow => ofFlow i
  | .function => ofFunction i

/-- The command of an instruction. -/
def ofInstruction (i : Instruction) : Except Fault Command :=
  match Family.ofName? i.name with
  | some f => ofFamily f i
  | none => .error (i.refuse (.unknownInstruction i.text))

end Command
end HackVM
