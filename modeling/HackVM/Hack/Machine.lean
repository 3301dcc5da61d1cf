import HackVM.Asm.Line

/-! # The Hack machine

A machine with 16-bit words: an address register, a data register, a memory cell
for every word, and a program of resolved instructions.  `M` is the cell that the
address register names before an instruction changes it. -/
namespace HackVM.Hack

open Asm

/-- A machine word. -/
abbrev Word := BitVec 16

/-- A memory cell for every address. -/
abbrev Memory := Word → Word

/-- An instruction whose symbols have been replaced by numbers. -/
inductive Instr where
  | load (value : Word)
  | store (dest : Dest) (comp : Comp)
  | jump (comp : Comp) (condition : Jump)
deriving DecidableEq

/-- The state of the machine between two instructions. -/
structure State where
  a : Word
  d : Word
  memory : Memory
  /-- The position of the next instruction. -/
  pc : Nat

/-- The value of a computation on the two registers and the addressed cell. -/
def compValue (a d m : Word) : Comp → Word
  | .zero => 0
  | .one => 1
  | .minusOne => -1
  | .d => d
  | .a => a
  | .m => m
  | .notD => ~~~d
  | .notA => ~~~a
  | .notM => ~~~m
  | .negD => -d
  | .negA => -a
  | .negM => -m
  | .dPlusOne => d + 1
  | .aPlusOne => a + 1
  | .mPlusOne => m + 1
  | .dMinusOne => d - 1
  | .aMinusOne => a - 1
  | .mMinusOne => m - 1
  | .dPlusA => d + a
  | .dPlusM => d + m
  | .dMinusA => d - a
  | .dMinusM => d - m
  | .aMinusD => a - d
  | .mMinusD => m - d
  | .dAndA => d &&& a
  | .dAndM => d &&& m
  | .dOrA => d ||| a
  | .dOrM => d ||| m

/-- Whether a value, read as a signed number, satisfies the condition of a
jump. -/
def jumps (v : Word) : Jump → Bool
  | .gt => 0 < v.toInt
  | .eq => v.toInt = 0
  | .ge => 0 ≤ v.toInt
  | .lt => v.toInt < 0
  | .ne => v.toInt ≠ 0
  | .le => v.toInt ≤ 0
  | .always => true

/-- Whether a destination holds the address register. -/
def toA : Dest → Bool
  | .a | .am | .ad | .amd => true
  | _ => false

/-- Whether a destination holds the data register. -/
def toD : Dest → Bool
  | .d | .md | .ad | .amd => true
  | _ => false

/-- Whether a destination holds the addressed cell. -/
def toM : Dest → Bool
  | .m | .md | .am | .amd => true
  | _ => false

/-- Memory with one cell changed. -/
def Memory.set (memory : Memory) (address value : Word) : Memory :=
  fun x => if x = address then value else memory x

namespace State

/-- The value of a computation in a state. -/
def value (s : State) (comp : Comp) : Word := compValue s.a s.d (s.memory s.a) comp

/-- The effect of one instruction. -/
def exec (s : State) : Instr → State
  | .load v => { s with a := v, pc := s.pc + 1 }
  | .store dest comp =>
    let v := s.value comp
    { a := if toA dest then v else s.a
      d := if toD dest then v else s.d
      memory := if toM dest then s.memory.set s.a v else s.memory
      pc := s.pc + 1 }
  | .jump comp condition =>
    { s with pc := if jumps (s.value comp) condition then s.a.toNat else s.pc + 1 }

/-- One step of a program, if there is an instruction at the current position. -/
def step? (program : List Instr) (s : State) : Option State :=
  (program[s.pc]?).map s.exec

/-- The state after a number of steps; the machine stops when it leaves the
program. -/
def run (program : List Instr) : Nat → State → State
  | 0, s => s
  | n + 1, s =>
    match s.step? program with
    | none => s
    | some s' => run program n s'

end State
end HackVM.Hack
