import HackVM.Segment
import HackVM.Text.Quoted

/-! # Diagnostics

What is reported when source text is refused.  A diagnostic has a cause, and says
in which module and on which line the cause was found, as far as that is known.
Kinds of diagnostics form a tree: a malformed index is also a malformed
instruction, and an invalid index also a segment error. -/
namespace HackVM

/-- The kinds of diagnostics. -/
inductive Kind where
  | general
  | malformed
  | malformedIndex
  | unknownSegment
  | invalidIndex
  | unknownInstruction
  | invalidModuleName
  | unreadable
deriving DecidableEq

namespace Kind

/-- The kind that a kind is a case of. -/
def parent? : Kind → Option Kind
  | .general => none
  | .malformedIndex => some .malformed
  | .invalidIndex => some .unknownSegment
  | _ => some .general

/-- A kind and the kinds that it is a case of, from the narrowest on. -/
def ancestry (k : Kind) : List Kind :=
  match k.parent? with
  | none => [k]
  | some p =>
    match p.parent? with
    | none => [k, p]
    | some q => [k, p, q]

/-- Whether a diagnostic of one kind is also one of another. -/
def isA (k other : Kind) : Bool := k.ancestry.contains other

end Kind

/-- Why source text is refused.  Where an instruction is at fault, the cause holds
its text. -/
inductive Cause where
  | argumentCount (name : String) (expected : Int) (given : Nat) (instruction : String)
  | invalidSymbol (symbol instruction : String)
  | malformedIndex (index instruction : String)
  | unknownSegmentName (name : String)
  | unknownSegment (name instruction : String)
  | invalidIndex (problem : IndexProblem) (instruction : String)
  | unknownInstruction (instruction : String)
  | invalidModuleName (name : String)
  | unreadable (path reason : String)
  /-- A cause that is given by its kind and its wording only. -/
  | stated (kind : Kind) (wording : String)
deriving DecidableEq

namespace Cause

/-- The kind of a cause. -/
def kind : Cause → Kind
  | .argumentCount .. => .malformed
  | .invalidSymbol .. => .malformed
  | .malformedIndex .. => .malformedIndex
  | .unknownSegmentName .. => .unknownSegment
  | .unknownSegment .. => .unknownSegment
  | .invalidIndex .. => .invalidIndex
  | .unknownInstruction .. => .unknownInstruction
  | .invalidModuleName .. => .invalidModuleName
  | .unreadable .. => .unreadable
  | .stated kind _ => kind

/-- The wording of a cause. -/
def message : Cause → String
  | .argumentCount name expected given instruction =>
    "'" ++ name ++ "' expects " ++ Text.decimal expected ++ " argument(s), got "
      ++ Text.decimal given ++ ": [" ++ instruction ++ "]"
  | .invalidSymbol symbol instruction =>
    "not a valid label/function name: " ++ Text.quoted symbol ++ ": [" ++ instruction ++ "]"
  | .malformedIndex index instruction =>
    "expected a non-negative integer, got " ++ Text.quoted index ++ ": [" ++ instruction ++ "]"
  | .unknownSegmentName name => "unknown segment: " ++ Text.quoted name
  | .unknownSegment name instruction =>
    "unknown segment: " ++ Text.quoted name ++ ": [" ++ instruction ++ "]"
  | .invalidIndex problem instruction => problem.message ++ ": [" ++ instruction ++ "]"
  | .unknownInstruction instruction => "unknown instruction [" ++ instruction ++ "]"
  | .invalidModuleName name => "module name is not a valid symbol: " ++ Text.quoted name
  | .unreadable path reason => "cannot read " ++ path ++ ": " ++ reason
  | .stated _ wording => wording

end Cause

/-- A report that source text is refused. -/
structure Diagnostic where
  cause : Cause
  /-- The number of the source line, if the cause lies on one. -/
  line : Option Int
  /-- The module, if it is known. -/
  module : Option String
deriving DecidableEq

namespace Diagnostic

/-- The kind of a diagnostic is that of its cause. -/
def kind (d : Diagnostic) : Kind := d.cause.kind

/-- The place of a diagnostic: the module and the line, each followed by a colon.
An empty module name and line zero are left out. -/
def place (d : Diagnostic) : String :=
  (match d.module with
    | none => ""
    | some m => if m = "" then "" else m ++ ":")
  ++ (match d.line with
    | none => ""
    | some n => if n = 0 then "" else Text.decimal n ++ ":")

/-- The text of a diagnostic: the place, if there is one, and the wording. -/
def render (d : Diagnostic) : String :=
  if d.place = "" then d.cause.message else d.place ++ " " ++ d.cause.message

/-- The diagnostic with its module filled in, unless it already names one. -/
def inModule (d : Diagnostic) (module : String) : Diagnostic :=
  match d.module with
  | none => { d with module := some module }
  | some _ => d

end Diagnostic
end HackVM
