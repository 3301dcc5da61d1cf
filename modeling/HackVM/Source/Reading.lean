import HackVM.Source.Instruction
import HackVM.Source.Lexeme

/-! # Reading instructions

A source line gives at most one instruction: its first word is the name and the
others are the arguments.  A line without a word, blank or all comment, gives
none, but still counts when lines are numbered. -/
namespace HackVM.Instruction

/-- A line without the carriage returns and line feeds at its end. -/
def trimLineEnd (line : String) : List Char :=
  (line.toList.reverse.dropWhile fun c => c = '\r' || c = '\n').reverse

/-- The words of a line. -/
def words (line : String) : List String := (Lexeme.scan (trimLineEnd line)).filterMap Lexeme.word?

/-- The instruction of a line with a given number. -/
def ofLine? (line : String) (number : Int) : Option Instruction :=
  match words line with
  | [] => none
  | name :: arguments => some ⟨number, name, arguments⟩

/-- The instructions of lines that are numbered from `first` on. -/
def ofLinesFrom (first : Int) : List String → List Instruction
  | [] => []
  | line :: rest => (ofLine? line first).toList ++ ofLinesFrom (first + 1) rest

/-- The instructions of the lines of a module. -/
def ofLines (lines : List String) : List Instruction := ofLinesFrom 1 lines

/-- The instructions of a text, whose lines end at line feeds only. -/
def ofText (text : String) : List Instruction := ofLines (Text.lines text)

end HackVM.Instruction
