import HackVM.Text.DecimalDigit
import HackVM.Text.Lines
import HackVM.Text.Quoted

/-! # Command line options

The command has one input, an option for the output path, and a pair of options
on whether the start of the program is emitted.  This module says how a single
argument is understood.  A long option may be shortened to a beginning that no
other option shares, and a value may follow it after an equals sign; the value of
a short option may follow it directly.  An argument that looks like a negative
number, or that holds a space, is no option. -/
namespace HackVM.CommandLine

/-- The options. -/
inductive Flag where
  | help
  | output
  | bootstrap
  | noBootstrap
deriving DecidableEq

namespace Flag

/-- The spellings of an option. -/
def spellings : Flag → List String
  | .help => ["-h", "--help"]
  | .output => ["-o", "--asm"]
  | .bootstrap => ["--bootstrap"]
  | .noBootstrap => ["--no-bootstrap"]

/-- Every option. -/
def all : List Flag := [.help, .output, .bootstrap, .noBootstrap]

/-- Every spelling with its option. -/
def spelled : List (String × Flag) := all.flatMap fun f => f.spellings.map fun s => (s, f)

/-- The option with a spelling. -/
def ofSpelling? (s : String) : Option Flag := spelled.lookup s

/-- Whether an option takes a value. -/
def takesValue : Flag → Bool
  | .output => true
  | _ => false

/-- How messages name an option. -/
def title (f : Flag) : String := Text.join "/" f.spellings

end Flag

/-- How one argument is understood. -/
inductive Reading where
  /-- An input, or the value of the option before it. -/
  | plain
  /-- The two dashes after which there are no options. -/
  | dashes
  /-- An option; `short` says that it is spelled with a single dash.  A text may be
  attached to it: after an equals sign, or directly after the letter of a short
  option. -/
  | flag (flag : Flag) (short : Bool) (attached : Option (List Char))
  /-- Like an option, but there is none of this spelling. -/
  | unknown
deriving DecidableEq

/-- The text before the first equals sign, and what follows the sign if there is
one. -/
def splitSign (cs : List Char) : List Char × Option (List Char) :=
  match cs.dropWhile (· ≠ '=') with
  | [] => (cs, none)
  | _ :: after => (cs.takeWhile (· ≠ '='), some after)

/-- One or more decimal digits. -/
def isDigits (cs : List Char) : Bool := !cs.isEmpty && cs.all Text.isDecimalDigit

/-- Whether the text after a dash makes a negative number: digits, or a fraction
with a point and digits after it.  A line feed may end it. -/
def isMagnitude (cs : List Char) : Bool :=
  let cs := if cs.getLast? = some '\n' then cs.dropLast else cs
  isDigits cs ||
    match cs.dropWhile Text.isDecimalDigit with
    | '.' :: fraction => isDigits fraction
    | _ => false

/-- Whether an argument starts with a single dash, as short options do. -/
def isShort (spelling : List Char) : Bool := spelling[1]? ≠ some '-'

/-- The options that an argument may stand for, none of which it spells out: those
of which it begins the long spelling, or whose short spelling begins it. -/
def candidates (cs : List Char) : List (String × Reading) :=
  if isShort cs then
    (Flag.spelled.filter fun (s, _) => s.toList = cs.take 2).map fun (s, f) =>
      (s, .flag f true (some (cs.drop 2)))
  else
    let (start, value) := splitSign cs
    (Flag.spelled.filter fun (s, _) => start.isPrefixOf s.toList).map fun (s, f) =>
      (s, .flag f false value)

/-- How an argument before the two dashes is understood, or the message that it
may stand for several options. -/
def classify (argument : String) : Except String Reading :=
  let cs := argument.toList
  if cs.head? ≠ some '-' || cs.length = 1 then .ok .plain
  else
    match Flag.ofSpelling? argument with
    | some f => .ok (.flag f (isShort cs) none)
    | none =>
      let (start, value) := splitSign cs
      match value, Flag.ofSpelling? (String.ofList start) with
      | some v, some f => .ok (.flag f (isShort cs) (some v))
      | _, _ =>
        match candidates cs with
        | [(_, reading)] => .ok reading
        | [] =>
          if isMagnitude (cs.drop 1) || cs.contains ' ' then .ok .plain else .ok .unknown
        | several =>
          .error ("ambiguous option: " ++ argument ++ " could match "
            ++ Text.join ", " (several.map Prod.fst))

/-- How all arguments are understood.  The first two dashes end the options. -/
def classifyAll : List String → Except String (List (String × Reading))
  | [] => .ok []
  | argument :: rest =>
    if argument = "--" then .ok ((argument, .dashes) :: rest.map fun a => (a, .plain))
    else do
      let reading ← classify argument
      let readings ← classifyAll rest
      .ok ((argument, reading) :: readings)

end HackVM.CommandLine
