import HackVM.Hack.Machine

/-! # Assembling

Symbols are resolved over the whole program: the machine's own names first, then
labels, which stand for the position of the next instruction, and last variables,
which get memory cells from `firstVariable` on in the order in which they are
first used. -/
namespace HackVM.Hack

open Asm

/-- The names that the machine gives to addresses. -/
def predefined : List (String × Nat) :=
  [("SP", 0), ("LCL", 1), ("ARG", 2), ("THIS", 3), ("THAT", 4),
    ("R0", 0), ("R1", 1), ("R2", 2), ("R3", 3), ("R4", 4), ("R5", 5), ("R6", 6), ("R7", 7),
    ("R8", 8), ("R9", 9), ("R10", 10), ("R11", 11), ("R12", 12), ("R13", 13), ("R14", 14),
    ("R15", 15), ("SCREEN", 16384), ("KBD", 24576)]

/-- The cell of the first variable. -/
def firstVariable : Nat := 16

/-- The labels of code, with their positions, when its first instruction stands at
a position. -/
def labelsFrom (position : Nat) : List Line → List (String × Nat)
  | [] => []
  | .label s :: code => (s.text, position) :: labelsFrom position code
  | _ :: code => labelsFrom (position + 1) code

/-- The labels of a program, with their positions. -/
def labels (code : List Line) : List (String × Nat) := labelsFrom 0 code

/-- A program can be assembled when no label is defined twice and none is a name
of the machine's own. -/
def Assemblable (code : List Line) : Prop :=
  ((labels code).map Prod.fst).Nodup ∧
    ∀ name ∈ (labels code).map Prod.fst, name ∉ predefined.map Prod.fst

instance (code : List Line) : Decidable (Assemblable code) := by
  unfold Assemblable
  infer_instance

/-- The text of a symbol that a line refers to. -/
def reference? : Line → Option String
  | .address (.symbol s) => some s.text
  | _ => none

/-- Whether a name stands for a variable in a program. -/
def isVariable (code : List Line) (name : String) : Bool :=
  (predefined.lookup name).isNone && ((labels code).lookup name).isNone

/-- The variables of a program, in the order in which they are first used. -/
def variableNames (code : List Line) : List String :=
  ((code.filterMap reference?).filter (isVariable code)).eraseDups

/-- The number that a name stands for in a program. -/
def symbolValue (code : List Line) (name : String) : Nat :=
  match predefined.lookup name with
  | some n => n
  | none =>
    match (labels code).lookup name with
    | some n => n
    | none => firstVariable + (variableNames code).idxOf name

/-- The number that an operand stands for in a program. -/
def operandValue (code : List Line) : Operand → Nat
  | .symbol s => symbolValue code s.text
  | .number n => n.toNat

/-- The instruction of a line, if it is not a label. -/
def instr? (code : List Line) : Line → Option Instr
  | .label _ => none
  | .address o => some (.load (BitVec.ofNat 16 (operandValue code o)))
  | .store dest comp => some (.store dest comp)
  | .jump comp condition => some (.jump comp condition)

/-- The instructions of a program. -/
def assemble (code : List Line) : List Instr := code.filterMap (instr? code)

end HackVM.Hack
