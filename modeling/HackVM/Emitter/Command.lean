import HackVM.Code.Arithmetic
import HackVM.Code.Function
import HackVM.Command.Reading
import HackVM.Emitter
import HackVM.Source.Reading

/-! # Emitting commands, instructions and modules

Each command has its code, and some change the emitter: a comparison and a call
take a number, and a function begins a scope.  An instruction is checked first;
if it is refused, nothing is produced and nothing changes.  A module starts in the
outer scope, whatever was emitted before it, and diagnostics of its instructions
name it. -/
namespace HackVM.Emission

/-- Emits the entry of a function, which becomes the scope of what follows. -/
def function (name : String) (locals : Nat) : Emission Unit := do
  modify fun e => { e with scope := ⟨some name⟩ }
  emit (Code.function name locals)

/-- Emits a call made in a scope.  The call takes its number even if its code
cannot be written. -/
def call (name : String) (arguments : Int) (scope : String) : Emission Unit := do
  let e ← get
  modify fun e => { e with calls := e.calls + 1 }
  let code ← check (Code.call name arguments scope e.calls)
  emit code

/-- Emits a comparison. -/
def compare (comparison : Comparison) (module : String) : Emission Unit := do
  let e ← get
  modify fun e => { e with compares := e.compares + 1 }
  emit (Code.compare comparison module e.compares)

/-- Emits the start of a program: the stack is set up and the first function
called. -/
def bootstrap : Emission Unit := do
  emit Code.startStack
  call Code.entryFunction 0 Code.startScope

/-- Emits a command of a module. -/
def command (module : String) : Command → Emission Unit
  | .push segment index => do
    let code ← check (Code.push segment index module)
    emit code
  | .pop segment index => do
    let code ← check (Code.pop segment index module)
    emit code
  | .operate (.binary op) => emit (Code.binary op)
  | .operate (.unary op) => emit (Code.unary op)
  | .operate (.compare comparison) => compare comparison module
  | .label name => do
    let e ← get
    emit [.label (e.scope.label name module)]
  | .goto name => do
    let e ← get
    emit (Code.jumpTo (e.scope.label name module))
  | .ifGoto name => do
    let e ← get
    emit (Code.jumpIf (e.scope.label name module))
  | .function name locals => function name locals
  | .call name arguments => do
    let e ← get
    call name arguments (e.scope.name module)
  | .ret => emit Code.ret

/-- Emits an instruction that is read as one of a family. -/
def asFamily (f : Family) (module : String) (i : Instruction) : Emission Unit := do
  let c ← check (Command.ofFamily f i)
  command module c

/-- Offers an instruction to a family, and says whether the family recognizes
it.  It is emitted only then. -/
def offer (f : Family) (module : String) (i : Instruction) : Emission Bool :=
  if f.recognizes i.name then do
    asFamily f module i
    pure true
  else pure false

/-- Emits an instruction of a module. -/
def instruction (module : String) (i : Instruction) : Emission Unit := do
  let c ← check (Command.ofInstruction i)
  command module c

/-- Emits the instructions of a module, up to the first that is refused. -/
def instructions (module : String) : List Instruction → Emission Unit
  | [] => pure ()
  | i :: rest => do
    instruction module i
    instructions module rest

/-- Emits a module from its name and its lines.  Nothing changes if the name is
refused. -/
def module (name : String) (lines : List String) : Emission Unit :=
  if isModuleName name then do
    modify fun e => { e with scope := .outer }
    mapFault (Fault.inModule name) (instructions name (Instruction.ofLines lines))
  else fail (.refused ⟨.invalidModuleName name, none, none⟩)

end HackVM.Emission
