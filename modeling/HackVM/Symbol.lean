import HackVM.Text.Numeral

/-! # Symbols

The names that emitted code uses.  A symbol keeps what it stands for; its text is
made only when it is written.  User names never hold a dollar sign, so one dollar
sign marks a label of the source and two mark a label made here. -/
namespace HackVM

/-- Whether a character may begin the name of a label or a function. -/
def isSymbolStart (c : Char) : Bool := c.isAlpha || c = '_' || c = '.' || c = ':'

/-- Whether a character may continue the name of a label or a function. -/
def isSymbolPart (c : Char) : Bool := isSymbolStart c || c.isDigit

/-- Whether a text may name a label or a function. -/
def isSymbolName (s : String) : Bool :=
  match s.toList with
  | [] => false
  | c :: cs => isSymbolStart c && cs.all isSymbolPart

/-- Whether a character may begin the name of a module. -/
def isModuleStart (c : Char) : Bool := c.isAlpha || c = '_' || c = ':'

/-- Whether a character may continue the name of a module. -/
def isModulePart (c : Char) : Bool := isModuleStart c || c.isDigit

/-- Whether a text may name a module.  A module's name holds no dot, since a dot
parts it from the index in the names of static variables. -/
def isModuleName (s : String) : Bool :=
  match s.toList with
  | [] => false
  | c :: cs => isModuleStart c && cs.all isModulePart

/-- The registers that emitted code names. -/
inductive Register where
  | sp
  | lcl
  | arg
  | this
  | that
  | r13
  | r14
deriving DecidableEq

/-- The name of a register. -/
def Register.name : Register → String
  | .sp => "SP"
  | .lcl => "LCL"
  | .arg => "ARG"
  | .this => "THIS"
  | .that => "THAT"
  | .r13 => "R13"
  | .r14 => "R14"

/-- The four places inside the code of a comparison that it jumps to. -/
inductive ComparePoint where
  /-- The left operand is negative. -/
  | leftNegative
  /-- Both operands have one sign. -/
  | sameSign
  /-- The outcome is known. -/
  | decide
  /-- The end of the code. -/
  | finish
deriving DecidableEq

/-- The name of a place inside a comparison. -/
def ComparePoint.name : ComparePoint → String
  | .leftNegative => "cmp_xneg"
  | .sameSign => "cmp_same"
  | .decide => "cmp_decide"
  | .finish => "cmp_end"

/-- What a name in emitted code stands for. -/
inductive Symbol where
  | register (register : Register)
  /-- A static variable of a module. -/
  | static (module : String) (index : Int)
  /-- The entry of a function. -/
  | entry (function : String)
  /-- A label of the source, in the scope that holds it. -/
  | label (scope name : String)
  /-- A place inside the comparison of that number. -/
  | compare (module : String) (point : ComparePoint) (number : Nat)
  /-- Where the call of that number, made in a scope, returns to. -/
  | returnSite (scope : String) (number : Nat)
deriving DecidableEq

namespace Symbol

/-- The text of a static variable. -/
def staticText (module : String) (index : Int) : String := module ++ "." ++ Text.decimal index

/-- The text of a source label. -/
def labelText (scope name : String) : String := scope ++ "$" ++ name

/-- The text of a label made here: its kind and its number, after two dollar
signs. -/
def internalText (scope kind : String) (number : Int) : String :=
  scope ++ "$$" ++ kind ++ "." ++ Text.decimal number

/-- The text of a symbol. -/
def text : Symbol → String
  | .register r => r.name
  | .static module index => staticText module index
  | .entry function => function
  | .label scope name => labelText scope name
  | .compare module point number => internalText module point.name number
  | .returnSite scope number => internalText scope "ret" number

end Symbol
end HackVM
