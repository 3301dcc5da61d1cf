import HackVM.Diagnostic

/-! # Faults

Everything that can stop an operation.  A diagnostic refuses source text.  The
other faults come from outside the language: numerals beyond the digit limit,
operations that have no code for what they were given, and the file system. -/
namespace HackVM

/-- What the file system refuses. -/
inductive FileProblem where
  | notFound
  | alreadyExists
  | notDirectory
  | isDirectory
  | nameTooLong
deriving DecidableEq

namespace FileProblem

/-- The system's number for a problem. -/
def number : FileProblem → Nat
  | .notFound => 2
  | .alreadyExists => 17
  | .notDirectory => 20
  | .isDirectory => 21
  | .nameTooLong => 36

/-- The system's wording for a problem. -/
def wording : FileProblem → String
  | .notFound => "No such file or directory"
  | .alreadyExists => "File exists"
  | .notDirectory => "Not a directory"
  | .isDirectory => "Is a directory"
  | .nameTooLong => "File name too long"

end FileProblem

/-- A problem together with the path at which it arose. -/
structure FileError where
  problem : FileProblem
  path : String
deriving DecidableEq

/-- The text of a file error. -/
def FileError.message (e : FileError) : String :=
  "[Errno " ++ Text.decimal e.problem.number ++ "] " ++ e.problem.wording ++ ": "
    ++ Text.quoted e.path

/-- What stops an operation. -/
inductive Fault where
  /-- Source text is refused. -/
  | refused (diagnostic : Diagnostic)
  /-- A numeral of that many digits is too long to be read. -/
  | numeralTooLong (digits : Nat)
  /-- A number has too many digits to be written. -/
  | numberTooLarge
  /-- No register belongs to that index of the `pointer` segment. -/
  | noPointerRegister (index : Int)
  /-- The `constant` segment has no cell that could be popped into. -/
  | constantHasNoCell
  /-- No operation has that name. -/
  | unknownOperation (name : String)
  /-- The empty family of instructions has no code. -/
  | noCode
  /-- An instruction has no argument at a position. -/
  | noSuchArgument
  /-- A position does not fit into a machine word. -/
  | positionTooLarge
  /-- A file name holds the character with code zero. -/
  | nulInPath
  /-- The file system refuses. -/
  | file (error : FileError)
deriving DecidableEq

namespace Fault

/-- The text of a fault. -/
def message : Fault → String
  | .refused d => d.render
  | .numeralTooLong digits =>
    "Exceeds the limit (" ++ Text.decimal Text.digitLimit
      ++ " digits) for integer string conversion: value has " ++ Text.decimal digits
      ++ " digits; use sys.set_int_max_str_digits() to increase the limit"
  | .numberTooLarge =>
    "Exceeds the limit (" ++ Text.decimal Text.digitLimit
      ++ " digits) for integer string conversion; "
      ++ "use sys.set_int_max_str_digits() to increase the limit"
  | .noPointerRegister index => Text.decimal index
  | .constantHasNoCell => "Segment.CONSTANT"
  | .unknownOperation name => Text.quoted name
  | .noCode => ""
  | .noSuchArgument => "tuple index out of range"
  | .positionTooLarge => "cannot fit 'int' into an index-sized integer"
  | .nulInPath => "embedded null byte"
  | .file e => e.message

/-- The fault with its module filled in, if it is a diagnostic without one. -/
def inModule (module : String) : Fault → Fault
  | .refused d => .refused (d.inModule module)
  | f => f

end Fault
end HackVM
