import HackVM.Symbol

/-! # Lines of Hack assembly

The three forms of a line: a label, an address instruction, and a computation
with a destination or a jump.  Computations, destinations and jumps are those of
the Hack machine. -/
namespace HackVM.Asm

/-- What an address instruction loads. -/
inductive Operand where
  | symbol (symbol : Symbol)
  | number (value : Int)
deriving DecidableEq

/-- The text of an operand. -/
def Operand.text : Operand → String
  | .symbol s => s.text
  | .number n => Text.decimal n

/-- The values that the machine computes from its registers `A` and `D` and from
the memory cell `M` at address `A`. -/
inductive Comp where
  | zero
  | one
  | minusOne
  | d
  | a
  | m
  | notD
  | notA
  | notM
  | negD
  | negA
  | negM
  | dPlusOne
  | aPlusOne
  | mPlusOne
  | dMinusOne
  | aMinusOne
  | mMinusOne
  | dPlusA
  | dPlusM
  | dMinusA
  | dMinusM
  | aMinusD
  | mMinusD
  | dAndA
  | dAndM
  | dOrA
  | dOrM
deriving DecidableEq

/-- The text of a computation. -/
def Comp.text : Comp → String
  | .zero => "0"
  | .one => "1"
  | .minusOne => "-1"
  | .d => "D"
  | .a => "A"
  | .m => "M"
  | .notD => "!D"
  | .notA => "!A"
  | .notM => "!M"
  | .negD => "-D"
  | .negA => "-A"
  | .negM => "-M"
  | .dPlusOne => "D+1"
  | .aPlusOne => "A+1"
  | .mPlusOne => "M+1"
  | .dMinusOne => "D-1"
  | .aMinusOne => "A-1"
  | .mMinusOne => "M-1"
  | .dPlusA => "D+A"
  | .dPlusM => "D+M"
  | .dMinusA => "D-A"
  | .dMinusM => "D-M"
  | .aMinusD => "A-D"
  | .mMinusD => "M-D"
  | .dAndA => "D&A"
  | .dAndM => "D&M"
  | .dOrA => "D|A"
  | .dOrM => "D|M"

/-- The places that a computed value is stored in. -/
inductive Dest where
  | m
  | d
  | md
  | a
  | am
  | ad
  | amd
deriving DecidableEq

/-- The text of a destination. -/
def Dest.text : Dest → String
  | .m => "M"
  | .d => "D"
  | .md => "MD"
  | .a => "A"
  | .am => "AM"
  | .ad => "AD"
  | .amd => "AMD"

/-- The conditions on a computed value under which the machine jumps. -/
inductive Jump where
  | gt
  | eq
  | ge
  | lt
  | ne
  | le
  | always
deriving DecidableEq

/-- The text of a jump. -/
def Jump.text : Jump → String
  | .gt => "JGT"
  | .eq => "JEQ"
  | .ge => "JGE"
  | .lt => "JLT"
  | .ne => "JNE"
  | .le => "JLE"
  | .always => "JMP"

/-- A line of assembly. -/
inductive Line where
  /-- `(symbol)` names the place of the next instruction. -/
  | label (symbol : Symbol)
  /-- `@operand` loads the address register. -/
  | address (operand : Operand)
  /-- `dest=comp` stores a value. -/
  | store (dest : Dest) (comp : Comp)
  /-- `comp;jump` jumps to the loaded address if the value satisfies the
  condition. -/
  | jump (comp : Comp) (condition : Jump)
deriving DecidableEq

/-- The text of a line. -/
def Line.text : Line → String
  | .label s => "(" ++ s.text ++ ")"
  | .address o => "@" ++ o.text
  | .store dest comp => dest.text ++ "=" ++ comp.text
  | .jump comp condition => comp.text ++ ";" ++ condition.text

/-- The address instruction of a symbol. -/
def load (s : Symbol) : Line := .address (.symbol s)

/-- The address instruction of a register. -/
def loadRegister (r : Register) : Line := load (.register r)

/-- The address instruction of a number. -/
def loadNumber (n : Int) : Line := .address (.number n)

/-- Code that puts the value of `D` on the stack. -/
def pushD : List Line :=
  [loadRegister .sp, .store .a .m, .store .m .d, loadRegister .sp, .store .m .mPlusOne]

/-- Code that takes the top of the stack into `D`. -/
def popD : List Line :=
  [loadRegister .sp, .store .m .mMinusOne, .store .a .m, .store .d .m]

end HackVM.Asm
